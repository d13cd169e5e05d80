import YkptParser.Parser

/-! The Intel PT framing of each packet kind, stated on bytes, and the theorem that every deku
codec of `parse_kind` reads exactly that framing: on the bytes of a trace it either fails or
consumes a positive whole number of bytes. The header byte of an IP packet holds `IPBytes` in
bits 7..5 and the opcode in bits 4..0, and is followed by a little-endian payload of the width
`ipPayload` gives that `IPBytes`. A CYC header has bits 1..0 set and, when its Exp bit 2 is set,
is followed by extended bytes up to the first one with bit 0 clear. `frame kind prevTip bytes` is
the packet of `kind` at the start of `bytes` as `parse_kind` builds it, an IP packet caching
`prevTip` when its `IPBytes` needs it, with the number of bytes it spans. -/

namespace YkptParser

theorem ofNat_eq_iff {x : Nat} {c : UInt8} (small : x < 256) : UInt8.ofNat x = c ↔ x = c.toNat := by
  constructor
  · rintro rfl
    exact (UInt8.toNat_ofNat_of_lt small).symm
  · rintro rfl
    exact byte_ofNat_toNat c

theorem masked_eq_iff {x : Nat} (k : Nat) {m c : UInt8} (small : x < 256)
    (mask : m.toNat = 2 ^ k - 1) : UInt8.ofNat x &&& m = c ↔ x % 2 ^ k = c.toNat := by
  have low : (UInt8.ofNat x &&& m).toNat = x % 2 ^ k := by
    rw [UInt8.and_toNat, mask, Nat.and_pow_two_sub_one_eq_mod, UInt8.toNat_ofNat_of_lt small]
  constructor
  · rintro rfl
    exact low.symm
  · intro same
    exact UInt8.toNat.inj (low.trans same)

def ipPayload : Nat → Option Nat
  | 0b000 => some 0
  | 0b001 => some 2
  | 0b010 => some 4
  | 0b011 | 0b100 => some 6
  | 0b110 => some 8
  | _ => none

def targetIpOf : Nat → Nat → TargetIP
  | 0b000, _ => .OutOfContext
  | 0b001, v => .Ip16 (UInt16.ofNat v)
  | 0b010, v => .Ip32 (UInt32.ofNat v)
  | 0b011, v | 0b100, v => .Ip48 (UInt64.ofNat v)
  | _, v => .Ip64 (UInt64.ofNat v)

def ipFrame (opcode : UInt8) : List UInt8 → Option (IPPacket × Nat)
  | [] => none
  | h :: rest =>
    if h.toNat % 32 = opcode.toNat then
      (ipPayload (h.toNat / 32)).bind fun n =>
        if n ≤ rest.length then
          some (⟨⟨UInt8.ofNat (h.toNat / 32)⟩, targetIpOf (h.toNat / 32) (leValue (rest.take n))⟩,
            1 + n)
        else none
    else none

def cycFrame : List UInt8 → Option Nat
  | [] => none
  | h :: rest =>
    if h.toNat % 4 = 3 then
      if h.toNat / 4 % 2 = 1 then (stopLength CYCPacket.extendedUntil rest).map (1 + ·)
      else some 1
    else none

/-! ## Codecs on the bytes of a trace -/

section Codecs

variable (bytes : List UInt8)

theorem psb_read_fromSlice :
    PSBPacket.read (.fromSlice bytes) =
      if PSBPacket.magic <+: bytes then some ⟨bytes, 8 * 16⟩ else none := by
  simp [PSBPacket.read, BitSlice.fromSlice, readMagic_at (j := 0) (i := 0) _ rfl]
  rfl

theorem cbr_read_fromSlice :
    CBRPacket.read (.fromSlice bytes) =
      if [0x02, 0x03] <+: bytes ∧ 4 ≤ bytes.length then some ⟨bytes, 8 * 4⟩ else none := by
  by_cases magic : [0x02, 0x03] <+: bytes
  · have long : 2 ≤ bytes.length - 2 ↔ 4 ≤ bytes.length := by omega
    simp [CBRPacket.read, BitSlice.fromSlice, readMagic_at (j := 0) (i := 0) _ rfl, magic,
      readLE_at (j := 16) (i := 2) 2 rfl, long]
    split <;> rfl
  · simp [CBRPacket.read, BitSlice.fromSlice, readMagic_at (j := 0) (i := 0) _ rfl, magic]

theorem psbend_read_fromSlice :
    PSBENDPacket.read (.fromSlice bytes) =
      if [0x02, 0x23] <+: bytes then some ⟨bytes, 8 * 2⟩ else none := by
  simp [PSBENDPacket.read, BitSlice.fromSlice, readMagic_at (j := 0) (i := 0) _ rfl]

theorem pad_read_fromSlice :
    PADPacket.read (.fromSlice bytes) = if [0x00] <+: bytes then some ⟨bytes, 8 * 1⟩ else none := by
  simp [PADPacket.read, BitSlice.fromSlice, readMagic_at (j := 0) (i := 0) _ rfl]

theorem mode_read_fromSlice :
    MODEPacket.read (.fromSlice bytes) =
      if [0x99] <+: bytes ∧ 2 ≤ bytes.length then some ⟨bytes, 8 * 2⟩ else none := by
  by_cases magic : [0x99] <+: bytes
  · by_cases long : 2 ≤ bytes.length
    · obtain ⟨b, hb⟩ : ∃ b, bytes[1]? = some b := ⟨_, List.getElem?_eq_getElem long⟩
      simp [BitSlice.fromSlice, MODEPacket.read, readMagic_at (j := 0) (i := 0) _ rfl, magic,
        readU8_at (j := 8) (i := 1) rfl, hb, long]
    · have hb : bytes[1]? = none := List.getElem?_eq_none_iff.mpr (by omega)
      simp [BitSlice.fromSlice, MODEPacket.read, readMagic_at (j := 0) (i := 0) _ rfl, magic,
        readU8_at (j := 8) (i := 1) rfl, hb, long]
  · simp [BitSlice.fromSlice, MODEPacket.read, readMagic_at (j := 0) (i := 0) _ rfl, magic]

theorem longtnt_read_fromSlice :
    LongTNTPacket.read (.fromSlice bytes) =
      if [0x02, 0xa3] <+: bytes ∧ 8 ≤ bytes.length then some ⟨bytes, 8 * 8⟩ else none := by
  by_cases magic : [0x02, 0xa3] <+: bytes
  · have long : 6 ≤ bytes.length - 2 ↔ 8 ≤ bytes.length := by omega
    simp [LongTNTPacket.read, BitSlice.fromSlice, readMagic_at (j := 0) (i := 0) _ rfl, magic,
      readLE_at (j := 16) (i := 2) 6 rfl, long]
    split <;> rfl
  · simp [LongTNTPacket.read, BitSlice.fromSlice, readMagic_at (j := 0) (i := 0) _ rfl, magic]

theorem shorttnt_read_fromSlice (h : UInt8) (rest : List UInt8) :
    ShortTNTPacket.read (.fromSlice (h :: rest)) =
      if h.toNat / 2 ≠ 1 ∧ h.toNat % 2 = 0 then some ⟨h :: rest, 8 * 1⟩ else none := by
  have hb : (h :: rest)[0]? = some h := by simp
  have byte : h.toNat < 256 := h.toNat_lt_size
  have branches : UInt8.ofNat (h.toNat / 2 % 128) = 1 ↔ h.toNat / 2 = 1 := by
    rw [ofNat_eq_iff (by omega)]
    show _ = 1 ↔ _
    omega
  simp [ShortTNTPacket.read, BitSlice.fromSlice,
    readBits_within (j := 0) (o := 0) (n := 7) hb rfl (by omega),
    readBool_within (j := 7) (o := 7) hb rfl (by omega), branches]
  split <;> simp_all

theorem cyc_read_fromSlice :
    CYCPacket.read (.fromSlice bytes) = (cycFrame bytes).map fun n => ⟨bytes, 8 * n⟩ := by
  cases bytes with
  | nil => rfl
  | cons h rest =>
    have hb : (h :: rest)[0]? = some h := by simp
    have byte : h.toNat < 256 := h.toNat_lt_size
    have magic : UInt8.ofNat (h.toNat % 4) &&& 0x3 = 0b11 ↔ h.toNat % 4 = 3 := by
      rw [masked_eq_iff (m := 0x3) 2 (by omega) rfl]
      show h.toNat % 4 % 2 ^ 2 = 3 ↔ _
      omega
    simp only [CYCPacket.read, BitSlice.fromSlice, readBits_within (j := 0) (o := 0) (n := 5) hb rfl (by omega),
      zero_add, Nat.sub_zero, Nat.reduceSub, Nat.reducePow, beq_true, Option.pure_def, Option.bind_eq_bind,
      Option.some_bind, readBool_within (j := 5) (o := 5) hb rfl (by omega), Nat.reduceAdd,
      readBits_within (j := 6) (o := 6) (n := 2) hb rfl (by omega), Nat.sub_self, pow_zero, Nat.div_one,
      decide_eq_true_eq, magic, List.length_cons, List.drop_succ_cons, List.drop_zero, Nat.le_add_right,
      readUntil_at (j := 8) (i := 1) _ _ rfl, cycFrame]
    rcases stopLength CYCPacket.extendedUntil rest with _ | n <;> split_ifs <;> simp
    omega

theorem targetIp_read_at {raw : List UInt8} {i j : Nat} (k : Nat) (small : k < 8)
    (aligned : j = 8 * i) :
    TargetIP.read (UInt8.ofNat k) ⟨raw, j⟩ = (ipPayload k).bind fun n =>
      if n ≤ (raw.drop i).length then
        some (⟨raw, j + 8 * n⟩, targetIpOf k (leValue ((raw.drop i).take n)))
      else none := by
  rcases k with _ | _ | _ | _ | _ | _ | _ | _ | k
  all_goals first
    | omega
    | simp [TargetIP.read, ipPayload, targetIpOf, readLE_at _ aligned]

theorem ip_read_fromSlice (opcode : UInt8) :
    readIPPacket opcode (.fromSlice bytes) =
      (ipFrame opcode bytes).map fun (p, n) => (⟨bytes, 8 * n⟩, p) := by
  cases bytes with
  | nil => rfl
  | cons h rest =>
    have hb : (h :: rest)[0]? = some h := by simp
    have byte : h.toNat < 256 := h.toNat_lt_size
    have magic : UInt8.ofNat (h.toNat % 32) &&& 0x1f = opcode ↔ h.toNat % 32 = opcode.toNat := by
      rw [masked_eq_iff (m := 0x1f) 5 (by omega) rfl]
      simp only [Nat.reducePow, Nat.mod_mod]
    have top : h.toNat / 32 % 8 = h.toNat / 32 := by omega
    simp only [readIPPacket, IPBytes.read, BitSlice.fromSlice,
      readBits_within (j := 0) (o := 0) (n := 3) hb rfl (by omega), zero_add, Nat.sub_zero, Nat.reduceSub,
      Nat.reducePow, top, Option.pure_def, Option.bind_eq_bind, Option.some_bind,
      readBits_within (j := 3) (o := 3) (n := 5) hb rfl (by omega), Nat.reduceAdd, Nat.sub_self, pow_zero,
      Nat.div_one, magic, targetIp_read_at (j := 8) (i := 1) _ (show h.toNat / 32 < 8 by omega) rfl,
      List.drop_succ_cons, List.drop_zero, ipFrame]
    split
    · cases ipPayload (h.toNat / 32) <;> simp
      split <;> simp
      omega
    · rfl

end Codecs

theorem ipFrame_eq_some {opcode : UInt8} {bytes : List UInt8} {ip : IPPacket} {n : Nat}
    (framed : ipFrame opcode bytes = some (ip, n)) :
    ∃ h rest m, bytes = h :: rest ∧ h.toNat % 32 = opcode.toNat ∧
      ipPayload (h.toNat / 32) = some m ∧ m ≤ rest.length ∧ n = 1 + m ∧
      ip = ⟨⟨UInt8.ofNat (h.toNat / 32)⟩, targetIpOf (h.toNat / 32) (leValue (rest.take m))⟩ := by
  match bytes, framed with
  | h :: rest, framed =>
    simp only [ipFrame] at framed
    split at framed
    · obtain ⟨m, width, fits⟩ := Option.bind_eq_some.mp framed
      split at fits
      · cases fits
        exact ⟨h, rest, m, rfl, ‹_›, width, ‹_›, rfl, rfl⟩
      · cases fits
    · cases framed

/-! ## The framing `parse_kind` reads -/

def Packet.ipFields : Packet → Option (IPPacket × Option UInt64)
  | .TIPPGE p prevTip | .TIPPGD p prevTip | .TIP p prevTip | .FUP p prevTip => some (p, prevTip)
  | _ => none

theorem Packet.targetIp_of_ipFields {pkt : Packet} {p : IPPacket} {prevTip : Option UInt64}
    (fields : pkt.ipFields = some (p, prevTip)) :
    pkt.targetIp = p.targetIp.decompress p.ipBytes prevTip := by
  cases pkt <;> simp only [Packet.ipFields, Option.some.injEq, Prod.mk.injEq, reduceCtorEq] at fields
  all_goals obtain ⟨rfl, rfl⟩ := fields; rfl

theorem Packet.targetIp_of_ipFields_none {pkt : Packet} (fields : pkt.ipFields = none) :
    pkt.targetIp = .ok none := by
  cases pkt <;> simp only [Packet.ipFields, reduceCtorEq] at fields <;> rfl

def snapshot (discr : IPPacket → Option UInt64 → Packet) (prevTip : UInt64) :
    Option (IPPacket × Nat) → Option (Packet × Nat) :=
  Option.map fun (p, n) =>
    (if p.ipBytes.needsPrevTip then discr p (some prevTip) else discr p none, n)

def frame (kind : PacketKind) (prevTip : UInt64) (bytes : List UInt8) : Option (Packet × Nat) :=
  match kind with
  | .PSB => if PSBPacket.magic <+: bytes then some (.PSB, 16) else none
  | .CBR => if [0x02, 0x03] <+: bytes ∧ 4 ≤ bytes.length then some (.CBR, 4) else none
  | .PSBEND => if [0x02, 0x23] <+: bytes then some (.PSBEND, 2) else none
  | .PAD => if [0x00] <+: bytes then some (.PAD, 1) else none
  | .MODE => if [0x99] <+: bytes ∧ 2 ≤ bytes.length then some (.MODE, 2) else none
  | .TIPPGE => snapshot .TIPPGE prevTip (ipFrame 0x11 bytes)
  | .TIPPGD => snapshot .TIPPGD prevTip (ipFrame 0x1 bytes)
  | .ShortTNT =>
    match bytes with
    | h :: _ => if h.toNat / 2 ≠ 1 ∧ h.toNat % 2 = 0 then some (.ShortTNT, 1) else none
    | [] => none
  | .LongTNT => if [0x02, 0xa3] <+: bytes ∧ 8 ≤ bytes.length then some (.LongTNT, 8) else none
  | .TIP => snapshot .TIP prevTip (ipFrame 0x0d bytes)
  | .FUP => snapshot .FUP prevTip (ipFrame 0b11101 bytes)
  | .CYC => (cycFrame bytes).map (.CYC, ·)

theorem readKind_fromSlice (kind : PacketKind) (prevTip : UInt64) (bytes : List UInt8) :
    PacketParser.readKind kind (.fromSlice bytes) prevTip =
      (frame kind prevTip bytes).map fun (pkt, n) => (⟨bytes, 8 * n⟩, pkt) := by
  cases kind
  case ShortTNT =>
    cases bytes with
    | nil => rfl
    | cons h rest =>
      simp only [PacketParser.readKind, readToPacket, shorttnt_read_fromSlice, frame]
      split <;> rfl
  case CYC =>
    simp only [PacketParser.readKind, readToPacket, cyc_read_fromSlice, frame, Option.map_map]
    rfl
  all_goals
    simp only [PacketParser.readKind, readToPacket, readToPacketTip, frame, snapshot,
      psb_read_fromSlice, cbr_read_fromSlice, psbend_read_fromSlice, pad_read_fromSlice,
      mode_read_fromSlice, longtnt_read_fromSlice, TIPPacket.read, TIPPGEPacket.read,
      TIPPGDPacket.read, FUPPacket.read, ip_read_fromSlice, Option.map_map]
  all_goals first | rfl | split <;> rfl

theorem Packet.ipKind_of_ipFields {pkt : Packet} {p : IPPacket} {cached : Option UInt64}
    (fields : pkt.ipFields = some (p, cached)) : pkt.kind ∈ [.TIP, .TIPPGE, .TIPPGD, .FUP] := by
  cases pkt <;> simp [Packet.ipFields, Packet.kind] at fields ⊢

theorem snapshot_eq_some {discr : IPPacket → Option UInt64 → Packet} {prevTip : UInt64}
    {found : Option (IPPacket × Nat)} {pkt : Packet} {n : Nat}
    (framed : snapshot discr prevTip found = some (pkt, n)) :
    ∃ p, found = some (p, n) ∧
      pkt = if p.ipBytes.needsPrevTip then discr p (some prevTip) else discr p none := by
  obtain ⟨⟨p, m⟩, found, same⟩ := Option.map_eq_some'.mp framed
  cases same
  exact ⟨p, found, rfl⟩

theorem frame_kind {kind : PacketKind} {prevTip : UInt64} {bytes : List UInt8} {pkt : Packet}
    {n : Nat} (framed : frame kind prevTip bytes = some (pkt, n)) : pkt.kind = kind := by
  cases kind
  case TIP | TIPPGE | TIPPGD | FUP =>
    obtain ⟨ip, -, rfl⟩ := snapshot_eq_some framed
    split <;> rfl
  case CYC =>
    obtain ⟨m, -, same⟩ := Option.map_eq_some'.mp framed
    cases same
    rfl
  case ShortTNT =>
    match bytes, framed with
    | _ :: _, framed =>
      simp only [frame] at framed
      split at framed <;> cases framed
      rfl
  all_goals
    simp only [frame] at framed
    split at framed <;> cases framed
    rfl

theorem frame_ipFields {kind : PacketKind} {prevTip : UInt64} {bytes : List UInt8} {pkt : Packet}
    {n : Nat} (framed : frame kind prevTip bytes = some (pkt, n)) {p : IPPacket}
    {cached : Option UInt64} (fields : pkt.ipFields = some (p, cached)) :
    ∃ opcode, ipFrame opcode bytes = some (p, n) ∧
      cached = if p.ipBytes.needsPrevTip then some prevTip else none := by
  have isIp := frame_kind framed ▸ Packet.ipKind_of_ipFields fields
  simp only [List.mem_cons, List.mem_singleton, List.not_mem_nil, or_false] at isIp
  rcases isIp with rfl | rfl | rfl | rfl
  all_goals
    obtain ⟨ip, found, rfl⟩ := snapshot_eq_some framed
    by_cases needs : ip.ipBytes.needsPrevTip <;>
      simp only [needs, if_true, if_false, Bool.false_eq_true] at fields <;>
      cases fields <;> exact ⟨_, found, by simp [needs]⟩

theorem parseKind_eq (p : PacketParser) (kind : PacketKind) :
    p.parseKind kind = match frame kind p.prevTip p.bytes with
      | some (pkt, n) => (some pkt, { p with bytes := p.bytes.drop n })
      | none => (none, p) := by
  simp only [PacketParser.parseKind, readKind_fromSlice]
  cases frame kind p.prevTip p.bytes <;> simp [BitSlice.asRawSlice]

end YkptParser

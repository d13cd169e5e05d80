import YkptParser.Pull

/-! Target IP decompression of the IP packets the parser builds: none of the `unreachable!`,
`unwrap` or `debug_assert!` of `decompress` fails on them, `todo!` is reached exactly for
`IPBytes = 100`, and otherwise `target_ip()` is Intel PT's IP compression. `compressedIp` states
that compression independently of the code: the IP that a payload of value `v` with a given
`IPBytes` denotes after the IP `last`, `none` when out of context. -/

namespace YkptParser

def compressedIp (ipBytes : Nat) (last v : UInt64) : Option UInt64 :=
  match ipBytes with
  | 0b000 => none
  | 0b001 => some (last &&& 0xffffffffffff0000 ||| v)
  | 0b010 => some (last &&& 0xffffffff00000000 ||| v)
  | 0b011 => some (if v.toNat.testBit 47 then v ||| 0xffff000000000000 else v)
  | _ => some v

section Words

theorem or_comm64 (a b : UInt64) : a ||| b = b ||| a :=
  UInt64.eq_of_toBitVec_eq (BitVec.or_comm _ _)

theorem zero_or64 (a : UInt64) : 0 ||| a = a := UInt64.eq_of_toBitVec_eq BitVec.zero_or

theorem shiftRight5_toNat (h : UInt8) : (h >>> 5).toNat = h.toNat / 32 := by
  show (h.toBitVec >>> ((5 : UInt8).mod 8).toBitVec).toNat = _
  simp [BitVec.toNat_ushiftRight, Nat.shiftRight_eq_div_pow]
  rfl

theorem shiftRight_toNat64 (a s : UInt64) (small : s.toNat < 64) :
    (a >>> s).toNat = a.toNat / 2 ^ s.toNat := by
  show (a.toBitVec >>> (s.mod 64).toBitVec).toNat = _
  simp only [BitVec.ushiftRight_eq', BitVec.toNat_ushiftRight, Nat.shiftRight_eq_div_pow]
  congr 2
  exact Nat.mod_eq_of_lt small

theorem bit47_eq (v : UInt64) :
    (v &&& ((1 : UInt64) <<< 47)) >>> 47 = if v.toNat.testBit 47 then 1 else 0 := by
  apply UInt64.toNat.inj
  have one : ((1 : UInt64) <<< 47).toNat = 2 ^ 47 := by decide
  have bit : (v.toNat &&& 2 ^ 47) / 2 ^ 47 = (v.toNat.testBit 47).toNat := by
    apply Nat.eq_of_testBit_eq
    intro i
    rw [← Nat.shiftRight_eq_div_pow, Nat.testBit_shiftRight, Nat.testBit_and, Nat.testBit_two_pow]
    cases i with
    | zero => cases v.toNat.testBit 47 <;> rfl
    | succ i => cases v.toNat.testBit 47 <;> simp [Nat.testBit_zero, Nat.testBit_succ]
  rw [shiftRight_toNat64 _ 47 (by decide), UInt64.and_toNat, one]
  exact bit.trans (by cases v.toNat.testBit 47 <;> rfl)

theorem sign_extend47 (v : UInt64) :
    ((~~~((v &&& ((1 : UInt64) <<< 47)) >>> 47) &&& 0x1) - 1) &&& 0xffff000000000000 ||| v =
      if v.toNat.testBit 47 then v ||| 0xffff000000000000 else v := by
  rw [bit47_eq]
  cases v.toNat.testBit 47
  · simp only [Bool.false_eq_true, ite_false]
    rw [show ((~~~(0 : UInt64) &&& 0x1) - 1) &&& 0xffff000000000000 = 0 by decide, zero_or64]
  · simp only [ite_true]
    rw [show ((~~~(1 : UInt64) &&& 0x1) - 1) &&& 0xffff000000000000 = 0xffff000000000000 by decide,
      or_comm64]

end Words

theorem decompress_ip16 (v : UInt16) (prev : UInt64) :
    (TargetIP.Ip16 v).decompress ⟨UInt8.ofNat 0b001⟩ (some prev) =
      .ok (some (prev &&& 0xffffffffffff0000 ||| v.toUInt64)) := rfl

theorem decompress_ip32 (v : UInt32) (prev : UInt64) :
    (TargetIP.Ip32 v).decompress ⟨UInt8.ofNat 0b010⟩ (some prev) =
      .ok (some (prev &&& 0xffffffff00000000 ||| v.toUInt64)) := rfl

theorem decompress_ip48 (v : UInt64) (high : v >>> 48 = 0) :
    (TargetIP.Ip48 v).decompress ⟨UInt8.ofNat 0b011⟩ none =
      .ok (some (if v.toNat.testBit 47 then v ||| 0xffff000000000000 else v)) := by
  show (do
    debugAssert (v >>> 48 == 0)
    pure (some (((~~~((v &&& ((1 : UInt64) <<< 47)) >>> 47) &&& 0x1) - 1) &&& 0xffff000000000000 ||| v))) = _
  rw [high, sign_extend47]
  rfl

theorem leValue_lt (bytes : List UInt8) : leValue bytes < 256 ^ bytes.length := by
  induction bytes with
  | nil => simp [leValue]
  | cons b bs ih =>
    have byte : b.toNat < 256 := b.toNat_lt_size
    simp only [leValue, List.length_cons, Nat.pow_succ]
    omega

theorem decompress_framed (k : Nat) (payload : List UInt8) (last : UInt64)
    (width : ipPayload k = some payload.length) (implemented : k ≠ 0b100) :
    (targetIpOf k (leValue payload)).decompress ⟨UInt8.ofNat k⟩
        (if (⟨UInt8.ofNat k⟩ : IPBytes).needsPrevTip then some last else none) =
      .ok (compressedIp k last (UInt64.ofNat (leValue payload))) := by
  have bound := leValue_lt payload
  rcases k with _ | _ | _ | _ | _ | _ | _ | _ | k
  all_goals simp only [ipPayload, Option.some.injEq, reduceCtorEq] at width
  all_goals try omega
  · rfl
  · rw [← width] at bound
    have low : (UInt16.ofNat (leValue payload)).toUInt64 = UInt64.ofNat (leValue payload) :=
      UInt64.toNat.inj (by
        show (UInt16.ofNat _).toNat = (UInt64.ofNat _).toNat
        rw [UInt16.toNat_ofNat_of_lt (by unfold UInt16.size; omega),
          UInt64.toNat_ofNat_of_lt (by unfold UInt64.size; omega)])
    exact (decompress_ip16 _ last).trans (by rw [low]; rfl)
  · rw [← width] at bound
    have low : (UInt32.ofNat (leValue payload)).toUInt64 = UInt64.ofNat (leValue payload) :=
      UInt64.toNat.inj (by
        show (UInt32.ofNat _).toNat = (UInt64.ofNat _).toNat
        rw [UInt32.toNat_ofNat_of_lt (by unfold UInt32.size; omega),
          UInt64.toNat_ofNat_of_lt (by unfold UInt64.size; omega)])
    exact (decompress_ip32 _ last).trans (by rw [low]; rfl)
  · rw [← width] at bound
    have value : (UInt64.ofNat (leValue payload)).toNat = leValue payload :=
      UInt64.toNat_ofNat_of_lt (by unfold UInt64.size; omega)
    have high : UInt64.ofNat (leValue payload) >>> 48 = 0 :=
      UInt64.toNat.inj (by
        rw [shiftRight_toNat64 _ 48 (by decide), value]
        exact Nat.div_eq_of_lt (bound.trans_eq (by decide)))
    exact decompress_ip48 _ high
  · rfl

theorem frame_targetIp {kind : PacketKind} {prevTip : UInt64} {bytes : List UInt8} {pkt : Packet}
    {n : Nat} (framed : frame kind prevTip bytes = some (pkt, n)) {ip : IPPacket}
    {cached : Option UInt64} (fields : pkt.ipFields = some (ip, cached)) :
    ∃ h payload, bytes = h :: payload ++ bytes.drop n ∧
      ipPayload (h.toNat / 32) = some payload.length ∧
      pkt.targetIp = if h.toNat / 32 = 0b100 then .error .todo
        else .ok (compressedIp (h.toNat / 32) prevTip (UInt64.ofNat (leValue payload))) := by
  obtain ⟨opcode, ipFramed, rfl⟩ := frame_ipFields framed fields
  obtain ⟨h, rest, m, rfl, -, width, fits, rfl, rfl⟩ := ipFrame_eq_some ipFramed
  have taken : (rest.take m).length = m := List.length_take_of_le fits
  rw [← taken] at width
  refine ⟨h, rest.take m, by simp [Nat.add_comm 1 m], width, ?_⟩
  rw [Packet.targetIp_of_ipFields fields]
  by_cases four : h.toNat / 32 = 0b100
  · rw [if_pos four, four]
    rfl
  · rw [if_neg four]
    exact decompress_framed _ _ _ width four

theorem ipFields_of_kind {pkt : Packet} (ipKind : pkt.kind ∈ [.TIP, .TIPPGE, .TIPPGD, .FUP]) :
    ∃ ip cached, pkt.ipFields = some (ip, cached) := by
  cases pkt <;> simp_all [Packet.kind, Packet.ipFields]

/-- A pull that parses a TIP, TIP.PGE, TIP.PGD or FUP packet from a header `h` and payload:
`IPBytes = h >> 5` is never reserved, and unless it is `100` the pull returns the packet, whose
`target_ip()` is Intel PT's IP compression of the payload after the parser's previous TIP. -/
theorem ip_packet_pull_target_ip (p after : PacketParser) (pkt : Packet)
    (parsed : p.parseState = (.ok pkt, after))
    (ipKind : pkt.kind ∈ [.TIP, .TIPPGE, .TIPPGD, .FUP]) :
    ∃ h payload, p.bytes = h :: payload ++ after.bytes ∧ h >>> 5 ≠ 0b101 ∧ h >>> 5 ≠ 0b111 ∧
      (h >>> 5 ≠ 0b100 → ∃ q, p.next = .ok (some (.ok pkt), q) ∧
        pkt.targetIp = .ok (compressedIp (h >>> 5).toNat p.prevTip (UInt64.ofNat (leValue payload)))) := by
  rw [PacketParser.parseState, PacketParser.parseStateFrom_eq] at parsed
  cases found : firstFrame p.prevTip p.bytes p.state.validPackets with
  | none => simp [found] at parsed
  | some result =>
    obtain ⟨kind, framedPkt, n⟩ := result
    simp only [found, Prod.mk.injEq, Except.ok.injEq] at parsed
    obtain ⟨rfl, rfl⟩ := parsed
    obtain ⟨ip, cached, fields⟩ := ipFields_of_kind ipKind
    obtain ⟨h, payload, bytes, width, tip⟩ := frame_targetIp (firstFrame_spec found).2 fields
    have shift := shiftRight5_toNat h
    have reserved (k : UInt8) (unused : ipPayload k.toNat = none) : h >>> 5 ≠ k := by
      intro same
      rw [same] at shift
      rw [← shift, unused] at width
      cases width
    refine ⟨h, payload, bytes, reserved 5 rfl, reserved 7 rfl, fun implemented => ?_⟩
    have four : h.toNat / 32 ≠ 0b100 := fun four => implemented (UInt8.toNat.inj (shift.trans four))
    have nonempty : p.bytes ≠ [] := by
      rw [bytes]
      exact List.append_ne_nil_of_left_ne_nil (List.cons_ne_nil h payload) _
    rw [if_neg four] at tip
    rw [shift, PacketParser.next_eq_pull]
    simp only [PacketParser.pull, found, tip, nonempty, if_false]
    exact ⟨_, rfl, trivial⟩

theorem tip_ip16_pull_target_ip :
    let p : PacketParser := ⟨[0x2d, 0xcc, 0xcc], .Normal, 0xa1a2a3a4a5a69999⟩
    let pkt : Packet := .TIP ⟨⟨1⟩, .Ip16 0xcccc⟩ (some 0xa1a2a3a4a5a69999)
    let after : PacketParser := ⟨[], .Normal, 0xa1a2a3a4a5a69999⟩
    (p.parseState = (.ok pkt, after) ∧ pkt.kind ∈ [.TIP, .TIPPGE, .TIPPGD, .FUP]) ∧
      ∃ h payload, p.bytes = h :: payload ++ after.bytes ∧ h >>> 5 ≠ 0b101 ∧ h >>> 5 ≠ 0b111 ∧
        (h >>> 5 ≠ 0b100 → ∃ q, p.next = .ok (some (.ok pkt), q) ∧
          pkt.targetIp =
            .ok (compressedIp (h >>> 5).toNat p.prevTip (UInt64.ofNat (leValue payload)))) :=
  ⟨⟨by decide, by decide⟩, ip_packet_pull_target_ip _ _ _ (by decide) (by decide)⟩

/-- The only panic of a pull is the `todo!` of `decompress`, on a TIP, TIP.PGE, TIP.PGD or FUP
packet that `parse_state` read from a header with `IPBytes = 100`. -/
theorem next_panics_only_at_ipbytes_100 (p : PacketParser) (e : Panic)
    (panicked : p.next = .error e) :
    e = .todo ∧ ∃ pkt after, p.parseState = (.ok pkt, after) ∧
      pkt.kind ∈ [.TIP, .TIPPGE, .TIPPGD, .FUP] ∧ ∃ h rest, p.bytes = h :: rest ∧ h >>> 5 = 0b100 := by
  rw [PacketParser.next_eq_pull] at panicked
  obtain ⟨kind, pkt, n, -, found, tip⟩ := PacketParser.pull_panics panicked
  obtain ⟨after, parsed⟩ : ∃ after, p.parseState = (.ok pkt, after) :=
    ⟨_, by rw [PacketParser.parseState, PacketParser.parseStateFrom_eq, found]⟩
  cases fields : pkt.ipFields with
  | none =>
    rw [Packet.targetIp_of_ipFields_none fields] at tip
    cases tip
  | some result =>
    obtain ⟨ip, cached⟩ := result
    obtain ⟨h, payload, bytes, -, target⟩ := frame_targetIp (firstFrame_spec found).2 fields
    rw [tip] at target
    by_cases four : h.toNat / 32 = 0b100
    · rw [if_pos four] at target
      exact ⟨Except.error.inj target, pkt, after, parsed, Packet.ipKind_of_ipFields fields,
        h, _, bytes, UInt8.toNat.inj ((shiftRight5_toNat h).trans four)⟩
    · rw [if_neg four] at target
      cases target

theorem tip_ipbytes_100_panics :
    let p : PacketParser := ⟨[0x8d, 0, 0, 0, 0, 0, 0], .Normal, 0⟩
    p.next = .error .todo ∧ (Panic.todo = .todo ∧ ∃ pkt after, p.parseState = (.ok pkt, after) ∧
      pkt.kind ∈ [.TIP, .TIPPGE, .TIPPGD, .FUP] ∧ ∃ h rest, p.bytes = h :: rest ∧ h >>> 5 = 0b100) :=
  ⟨by decide, next_panics_only_at_ipbytes_100 _ _ (by decide)⟩

end YkptParser

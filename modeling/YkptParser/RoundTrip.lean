import YkptParser.Decompress
import YkptParser.Truncation

/-! Decoding the encodings of well-formed Intel PT packets. `PTPacket` is the format's own
description of a packet of each of the twelve kinds and `PTPacket.encode` its bytes; the parser's
packet `Decodes` a `PTPacket` when it has its kind and, for an IP packet, its `IPBytes` and
payload. Every
framing reads back its own packet from its encoding (`frame_encode`), and no other kind of a
state's list does, except ShortTNT on PAD's byte 0: ShortTNT comes first in `Normal`, so the
parser never yields a PAD. Without PAD, a word of the automaton decodes to its packets. -/

namespace YkptParser

def ipOpcode : PacketKind → Nat
  | .TIP => 0x0d
  | .TIPPGE => 0x11
  | .TIPPGD => 0x01
  | .FUP => 0x1d
  | _ => 0

def payloadWidth : Nat → Option Nat
  | 0b000 => some 0
  | 0b001 => some 2
  | 0b010 => some 4
  | 0b011 => some 6
  | 0b110 => some 8
  | _ => none

def ExtendedBytes (ext : List UInt8) : Prop :=
  ∃ more last, ext = more ++ [last] ∧ (∀ e ∈ more, e.toNat % 2 = 1) ∧ last.toNat % 2 = 0

/-- A well-formed Intel PT packet of one of the twelve kinds, with the bytes it carries.
Well-formed means framed as the format's table frames each kind. A ShortTNT is one byte with bit 0
clear and a stop bit above one to six branch bits. A CYC header has bits 1..0 set and is followed
by extended bytes, bit 0 set on all of them but the last, exactly when its Exp bit 2 is set. An
IP packet holds `IPBytes` and its kind's opcode in the header byte, then a payload of the width
the format gives that `IPBytes`, leaving out the `100` the code does not implement. The payloads
of LongTNT, MODE and CBR are not interpreted: they are any six bytes, any byte and any two bytes,
so a LongTNT need not hold the stop bit Intel PT puts after its branch bits. -/
inductive PTPacket
  | psb
  | psbend
  | cbr (ratio reserved : UInt8)
  | pad
  | mode (payload : UInt8)
  | shortTnt (h : UInt8) (wellFormed : h.toNat % 2 = 0 ∧ 4 ≤ h.toNat)
  | longTnt (payload : List UInt8) (wellFormed : payload.length = 6)
  | cyc (h : UInt8) (ext : List UInt8)
      (wellFormed : h.toNat % 4 = 3 ∧ if h.toNat / 4 % 2 = 1 then ExtendedBytes ext else ext = [])
  | ip (kind : PacketKind) (ipBytes : Nat) (payload : List UInt8)
      (wellFormed : kind ∈ [.TIP, .TIPPGE, .TIPPGD, .FUP] ∧ payloadWidth ipBytes = some payload.length)

namespace PTPacket

def kind : PTPacket → PacketKind
  | psb => .PSB
  | psbend => .PSBEND
  | cbr .. => .CBR
  | pad => .PAD
  | mode _ => .MODE
  | shortTnt .. => .ShortTNT
  | longTnt .. => .LongTNT
  | cyc .. => .CYC
  | ip kind .. => kind

def encode : PTPacket → List UInt8
  | psb => (List.replicate 8 [0x02, 0x82]).flatten
  | psbend => [0x02, 0x23]
  | cbr ratio reserved => [0x02, 0x03, ratio, reserved]
  | pad => [0x00]
  | mode payload => [0x99, payload]
  | shortTnt h _ => [h]
  | longTnt payload _ => 0x02 :: 0xa3 :: payload
  | cyc h ext _ => h :: ext
  | ip kind ipBytes payload _ => UInt8.ofNat (ipBytes * 32 + ipOpcode kind) :: payload

def ipPacket : PTPacket → Option IPPacket
  | ip _ ipBytes payload _ => some ⟨⟨UInt8.ofNat ipBytes⟩, targetIpOf ipBytes (leValue payload)⟩
  | _ => none

def Decodes (spec : PTPacket) (pkt : Packet) : Prop :=
  pkt.kind = spec.kind ∧ pkt.ipFields.map Prod.fst = spec.ipPacket

end PTPacket

theorem stopLength_append_of_running {stop : UInt8 → Bool} {more rest : List UInt8}
    (running : ∀ e ∈ more, stop e = false) :
    stopLength stop (more ++ rest) = (stopLength stop rest).map (· + more.length) := by
  induction more with
  | nil => simp
  | cons e more ih =>
    rw [List.cons_append, stopLength, if_neg (by simp [running e (List.mem_cons_self _ _)]),
      ih fun e mem => running e (List.mem_cons_of_mem _ mem), Option.map_map]
    congr 1

theorem stopLength_extended {ext rest : List UInt8} (extended : ExtendedBytes ext) :
    stopLength CYCPacket.extendedUntil (ext ++ rest) = some ext.length := by
  obtain ⟨more, last, rfl, ones, zero⟩ := extended
  rw [extendedUntil_eq, List.append_assoc, List.singleton_append,
    stopLength_append_of_running fun e mem => by simp [ones e mem]]
  simp [stopLength, zero, Nat.add_comm]

theorem payloadWidth_spec {ipBytes width : Nat} (implemented : payloadWidth ipBytes = some width) :
    ipBytes ≤ 6 ∧ ipBytes ≠ 0b100 ∧ ipPayload ipBytes = some width := by
  match ipBytes, implemented with
  | 0, rfl | 1, rfl | 2, rfl | 3, rfl | 6, rfl => exact ⟨by omega, by omega, rfl⟩

theorem header_toNat {kind : PacketKind} {ipBytes : Nat}
    (isIp : kind ∈ [.TIP, .TIPPGE, .TIPPGD, .FUP]) (small : ipBytes ≤ 6) :
    (UInt8.ofNat (ipBytes * 32 + ipOpcode kind)).toNat = ipBytes * 32 + ipOpcode kind ∧
      ipOpcode kind < 32 := by
  have opcode : ipOpcode kind < 32 := by
    simp only [List.mem_cons, List.mem_singleton, List.not_mem_nil, or_false] at isIp
    rcases isIp with rfl | rfl | rfl | rfl <;> decide
  exact ⟨UInt8.toNat_ofNat_of_lt (by unfold UInt8.size; omega), opcode⟩

theorem frame_encode (spec : PTPacket) (prevTip : UInt64) (rest : List UInt8) :
    ∃ pkt, frame spec.kind prevTip (spec.encode ++ rest) = some (pkt, spec.encode.length) ∧
      spec.Decodes pkt := by
  cases spec with
  | psb => exact ⟨.PSB, by simp [PTPacket.kind, frame, PTPacket.encode, PSBPacket.magic], rfl, rfl⟩
  | psbend => exact ⟨.PSBEND, by simp [PTPacket.kind, frame, PTPacket.encode], rfl, rfl⟩
  | cbr => exact ⟨.CBR, by simp [PTPacket.kind, frame, PTPacket.encode], rfl, rfl⟩
  | pad => exact ⟨.PAD, by simp [PTPacket.kind, frame, PTPacket.encode], rfl, rfl⟩
  | mode => exact ⟨.MODE, by simp [PTPacket.kind, frame, PTPacket.encode], rfl, rfl⟩
  | longTnt payload wellFormed =>
    exact ⟨.LongTNT, by simp [PTPacket.kind, frame, PTPacket.encode, wellFormed], rfl, rfl⟩
  | shortTnt h wellFormed =>
    refine ⟨.ShortTNT, ?_, rfl, rfl⟩
    simp only [PTPacket.kind, PTPacket.encode, frame, List.cons_append, List.nil_append,
      List.length_singleton]
    rw [if_pos (by omega)]
  | cyc h ext wellFormed =>
    refine ⟨.CYC, ?_, rfl, rfl⟩
    obtain ⟨header, extended⟩ := wellFormed
    simp only [PTPacket.kind, PTPacket.encode, frame, cycFrame, List.cons_append, header,
      List.length_cons, if_true]
    split at extended
    · rw [if_pos ‹_›, stopLength_extended extended]
      simp [Nat.add_comm]
    · subst extended
      simp [‹¬h.toNat / 4 % 2 = 1›]
  | ip kind ipBytes payload wellFormed =>
    obtain ⟨isIp, width⟩ := wellFormed
    obtain ⟨small, -, payloadWidth⟩ := payloadWidth_spec width
    obtain ⟨header, opcode⟩ := header_toNat isIp small
    have low : (ipBytes * 32 + ipOpcode kind) % 32 = ipOpcode kind := by omega
    have high : (ipBytes * 32 + ipOpcode kind) / 32 = ipBytes := by omega
    have framed (opcode : UInt8) (same : opcode.toNat = ipOpcode kind) :
        ipFrame opcode (UInt8.ofNat (ipBytes * 32 + ipOpcode kind) :: (payload ++ rest)) =
          some (⟨⟨UInt8.ofNat ipBytes⟩, targetIpOf ipBytes (leValue payload)⟩, 1 + payload.length) := by
      simp [ipFrame, header, low, high, same, payloadWidth, List.take_left']
    simp only [List.mem_cons, List.mem_singleton, List.not_mem_nil, or_false] at isIp
    rcases isIp with rfl | rfl | rfl | rfl
    all_goals
      simp only [PTPacket.kind, PTPacket.encode, frame, snapshot, List.cons_append]
      rw [framed, Option.map_some', List.length_cons, Nat.add_comm 1]
      · refine ⟨_, rfl, ?_⟩
        split <;> exact ⟨rfl, rfl⟩
      · rfl

theorem frame_encode_only (spec : PTPacket) (notPad : spec.kind ≠ .PAD) {other : PacketKind}
    (different : other ≠ spec.kind) (prevTip : UInt64) (rest : List UInt8) :
    frame other prevTip (spec.encode ++ rest) = none := by
  cases framed' : frame other prevTip (spec.encode ++ rest) with
  | none => rfl
  | some result =>
    obtain ⟨pkt, framed, -⟩ := frame_encode spec prevTip rest
    obtain ⟨h, bytes, split, header⟩ := frame_header framed
    obtain ⟨_, _, split', header'⟩ := frame_header framed'
    rw [split] at split'
    cases split'
    rcases header_overlap header header' with same | ⟨shortTnt, rfl⟩ | ⟨pad, -⟩
    · exact absurd same.symm different
    · -- The byte of a ShortTNT is at least 4, and PAD's is 0.
      cases spec with
      | shortTnt t wellFormed =>
        simp only [PTPacket.encode, List.cons_append, List.nil_append, List.cons.injEq] at split
        obtain ⟨rfl, -⟩ := split
        simp only [Header] at header'
        omega
      | ip kind _ _ wellFormed =>
        cases shortTnt
        simp at wellFormed
      | _ => cases shortTnt
    · exact absurd pad notPad

theorem Admits.valid {state next : PacketParserState} {kind : PacketKind}
    (admits : Admits state kind next) :
    kind ∈ state.validPackets ∧ next = state.transition kind := by
  cases admits with
  | normal other =>
    simp only [List.mem_cons, List.mem_singleton, List.not_mem_nil, or_false] at other
    rcases other with rfl | rfl | rfl | rfl | rfl | rfl | rfl | rfl | rfl <;> decide
  | _ => decide

theorem firstFrame_of_only {prevTip : UInt64} {bytes : List UInt8} {kinds : List PacketKind}
    {kind : PacketKind} {pkt : Packet} {n : Nat} (mem : kind ∈ kinds)
    (framed : frame kind prevTip bytes = some (pkt, n))
    (only : ∀ other ∈ kinds, other ≠ kind → frame other prevTip bytes = none) :
    firstFrame prevTip bytes kinds = some (kind, pkt, n) := by
  induction kinds with
  | nil => cases mem
  | cons first kinds ih =>
    simp only [firstFrame]
    by_cases same : first = kind
    · subst same
      rw [framed]
    · rw [only first (List.mem_cons_self _ _) same]
      exact ih ((List.mem_cons.mp mem).resolve_left (Ne.symm same))
        fun other mem' => only other (List.mem_cons_of_mem _ mem')

theorem targetIp_of_decodes {spec : PTPacket} {prevTip : UInt64} {bytes : List UInt8}
    {pkt : Packet} {n : Nat} (framed : frame spec.kind prevTip bytes = some (pkt, n))
    (decodes : spec.Decodes pkt) : ∃ tip, pkt.targetIp = .ok tip := by
  cases fields : pkt.ipFields with
  | none => exact ⟨none, Packet.targetIp_of_ipFields_none fields⟩
  | some result =>
    obtain ⟨ip, cached⟩ := result
    obtain ⟨-, -, snapshot⟩ := frame_ipFields framed fields
    have same := decodes.2
    rw [fields] at same
    cases spec with
    | ip kind ipBytes payload wellFormed =>
      cases same
      obtain ⟨-, notFour, width⟩ := payloadWidth_spec wellFormed.2
      rw [Packet.targetIp_of_ipFields fields, snapshot]
      exact ⟨_, decompress_framed ipBytes payload prevTip width notFour⟩
    | _ => cases same

namespace PacketParser

theorem pull_encode {p : PacketParser} {spec : PTPacket} {rest : List UInt8}
    {next : PacketParserState} (bytes : p.bytes = spec.encode ++ rest)
    (admits : Admits p.state spec.kind next) (notPad : spec.kind ≠ .PAD) :
    ∃ pkt prevTip, spec.Decodes pkt ∧ p.pull = .ok (some (.ok pkt), ⟨rest, next, prevTip⟩) := by
  obtain ⟨valid, rfl⟩ := admits.valid
  obtain ⟨pkt, framed, decodes⟩ := frame_encode spec p.prevTip rest
  obtain ⟨tip, ip⟩ := targetIp_of_decodes framed decodes
  have found := firstFrame_of_only valid framed
    fun other _ different => frame_encode_only spec notPad different p.prevTip rest
  have nonempty : p.bytes ≠ [] :=
    bytes ▸ List.append_ne_nil_of_left_ne_nil (List.ne_nil_of_length_pos (frame_pos framed)) _
  refine ⟨pkt, tip.getD p.prevTip, decodes, ?_⟩
  rw [← bytes] at found
  simp only [pull, if_neg nonempty, found, ip, Except.map]
  rw [bytes, List.drop_left]

theorem pulls_encode {specs : List PTPacket} {p : PacketParser} {rest : List UInt8}
    {last : PacketParserState} (bytes : p.bytes = (specs.map PTPacket.encode).flatten ++ rest)
    (word : Word p.state (specs.map PTPacket.kind) last)
    (noPad : ∀ spec ∈ specs, spec.kind ≠ .PAD) :
    ∃ pkts r, p.pulls specs.length = .ok (pkts.map fun pkt => some (.ok pkt), r) ∧
      r.bytes = rest ∧ r.state = last ∧ List.Forall₂ PTPacket.Decodes specs pkts := by
  induction specs generalizing p with
  | nil =>
    cases word
    exact ⟨[], p, rfl, bytes, rfl, .nil⟩
  | cons spec specs ih =>
    cases word with
    | cons admits word =>
      rw [List.map_cons, List.flatten_cons, List.append_assoc] at bytes
      obtain ⟨pkt, prevTip, decodes, pulled⟩ :=
        pull_encode bytes admits (noPad spec (List.mem_cons_self _ _))
      obtain ⟨pkts, r, run, unread, state, decoded⟩ :=
        ih (p := ⟨_, _, prevTip⟩) rfl word fun spec mem => noPad spec (List.mem_cons_of_mem _ mem)
      exact ⟨pkt :: pkts, r, pulls_succ_eq_ok.mpr ⟨_, _, _, pulled, run, rfl⟩, unread, state,
        .cons decodes decoded⟩

/-- Decoding undoes encoding for every word of the automaton without a PAD: the pulls of a new
parser over the encodings of the packets yield exactly those packets, in order, with their
fields, and then `None`. -/
theorem pad_free_word_round_trip (specs : List PTPacket) (last : PacketParserState)
    (word : Word .Init (specs.map PTPacket.kind) last)
    (noPad : ∀ spec ∈ specs, spec.kind ≠ .PAD) :
    ∃ pkts r, (new (specs.map PTPacket.encode).flatten).pulls specs.length =
        .ok (pkts.map fun pkt => some (.ok pkt), r) ∧
      r.next = .ok (none, r) ∧ r.state = last ∧ List.Forall₂ PTPacket.Decodes specs pkts := by
  obtain ⟨pkts, r, run, unread, state, decoded⟩ :=
    pulls_encode (p := new _) (List.append_nil _).symm word noPad
  exact ⟨pkts, r, run, (next_eq_none_iff r r).mpr ⟨unread, rfl⟩, state, decoded⟩

def syncThenTip : List PTPacket :=
  [.psb, .cbr 0x1f 0, .psbend, .ip .TIP 0b001 [0xcc, 0xcc] ⟨by decide, rfl⟩,
    .cyc 0x07 [0x10] ⟨rfl, ⟨[], 0x10, rfl, by simp, rfl⟩⟩]

theorem sync_then_tip_round_trip :
    (Word .Init (syncThenTip.map PTPacket.kind) .Normal ∧ ∀ spec ∈ syncThenTip, spec.kind ≠ .PAD) ∧
      ∃ pkts r, (new (syncThenTip.map PTPacket.encode).flatten).pulls syncThenTip.length =
          .ok (pkts.map fun pkt => some (.ok pkt), r) ∧
        r.next = .ok (none, r) ∧ r.state = .Normal ∧ List.Forall₂ PTPacket.Decodes syncThenTip pkts := by
  have word : Word .Init (syncThenTip.map PTPacket.kind) .Normal :=
    .cons .init_psb (.cons .psbplus_cbr (.cons .psbplus_psbend
      (.cons (.normal (by decide)) (.cons (.normal (by decide)) (.nil _)))))
  have noPad : ∀ spec ∈ syncThenTip, spec.kind ≠ .PAD := by decide
  exact ⟨⟨word, noPad⟩, pad_free_word_round_trip _ _ word noPad⟩

/-- The parser never yields a PAD: PAD is valid only in `Normal`, where ShortTNT comes first and
reads the byte 0 as a ShortTNT. -/
theorem next_never_yields_pad (p q : PacketParser) : p.next ≠ .ok (some (.ok .PAD), q) := by
  rw [next_eq_pull]
  intro pulled
  obtain ⟨kind, _, _, -, found, -, -⟩ := pull_ok pulled
  obtain ⟨valid, framed⟩ := firstFrame_spec found
  obtain rfl : kind = .PAD := (frame_kind framed).symm
  obtain ⟨h, rest, bytes, zero⟩ := frame_header framed
  have shortTnt : frame .ShortTNT p.prevTip p.bytes = some (.ShortTNT, 1) := by
    simp only [Header] at zero
    simp [bytes, frame, zero]
  cases state : p.state <;> rw [state] at found valid <;>
    simp [PacketParserState.validPackets, firstFrame, shortTnt] at found valid

/-- The encodings of PSB, PSBEND and PAD, a word of the automaton, decode to a ShortTNT in place
of the PAD. -/
theorem psb_psbend_pad_decodes_shorttnt :
    (new ([PTPacket.psb, .psbend, .pad].map PTPacket.encode).flatten).pulls 3 =
      .ok ([some (.ok .PSB), some (.ok .PSBEND), some (.ok .ShortTNT)], ⟨[], .Normal, 0⟩) := by
  simp only [pulls, next_eq_pull]
  decide

end PacketParser

end YkptParser

import YkptParser.Runs

/-! The bytes a run consumes. `intelPTLength` is the length Intel PT gives a packet of each kind,
as its leading bytes fix it: the header and the payload its `IPBytes` selects for an IP packet,
and for a CYC the header alone unless its Exp bit 2 is set, otherwise through the first following
byte whose bit 0 is clear. Each framing reads exactly one such packet (`frame_length`) and ends
on a byte boundary; so a run splits the trace into
the packets it yields and the bytes it has not reached, and yields at most one packet a byte.
Since a pull that yields no packet leaves the parser as it was, the iterator settles within one
pull more than the trace has bytes. -/

namespace YkptParser

def ipLength : List UInt8 → Option Nat
  | [] => none
  | h :: _ =>
    match h.toNat / 32 with
    | 0b000 => some 1
    | 0b001 => some 3
    | 0b010 => some 5
    | 0b011 | 0b100 => some 7
    | 0b110 => some 9
    | _ => none

def cycLength : List UInt8 → Option Nat
  | [] => none
  | h :: rest =>
    if h.toNat / 4 % 2 = 0 then some 1
    else (stopLength (fun e => e.toNat % 2 = 0) rest).map (1 + ·)

def intelPTLength : PacketKind → List UInt8 → Option Nat
  | .PSB, _ => some 16
  | .PSBEND, _ => some 2
  | .CBR, _ => some 4
  | .PAD, _ => some 1
  | .MODE, _ => some 2
  | .ShortTNT, _ => some 1
  | .LongTNT, _ => some 8
  | .TIP, bytes | .TIPPGE, bytes | .TIPPGD, bytes | .FUP, bytes => ipLength bytes
  | .CYC, bytes => cycLength bytes

theorem intelPTLength_pos {kind : PacketKind} {bytes : List UInt8} {m : Nat}
    (length : intelPTLength kind bytes = some m) : 0 < m := by
  rcases bytes with _ | ⟨h, rest⟩ <;> cases kind <;>
    simp only [intelPTLength, ipLength, cycLength, Option.some.injEq, reduceCtorEq] at length
  all_goals first
    | omega
    | (split at length <;> simp only [Option.some.injEq, reduceCtorEq, Option.map_eq_some'] at length
       all_goals omega)

section Stop

variable {stop : UInt8 → Bool} {bytes : List UInt8} {n : Nat}

theorem stopLength_le (found : stopLength stop bytes = some n) : n ≤ bytes.length := by
  induction bytes generalizing n with
  | nil => cases found
  | cons e es ih =>
    simp only [stopLength] at found
    split at found
    · cases found
      simp
    · obtain ⟨m, rest, rfl⟩ := Option.map_eq_some'.mp found
      simpa using ih rest

theorem stopLength_take (found : stopLength stop bytes = some n) :
    stopLength stop (bytes.take n) = some n := by
  induction bytes generalizing n with
  | nil => cases found
  | cons e es ih =>
    simp only [stopLength] at found
    split at found
    · cases found
      simp [stopLength, ‹stop e = true›]
    · obtain ⟨m, rest, rfl⟩ := Option.map_eq_some'.mp found
      simp [stopLength, ‹¬stop e = true›, ih rest]

end Stop

theorem extendedUntil_eq : CYCPacket.extendedUntil = fun e => decide (e.toNat % 2 = 0) := by
  funext e
  have bit := masked_eq_iff 1 (m := 0x01) (c := 0x01) e.toNat_lt_size rfl
  rw [byte_ofNat_toNat] at bit
  rw [CYCPacket.extendedUntil, Bool.eq_iff_iff, bne_iff_ne, ne_eq, bit, decide_eq_true_iff]
  show ¬e.toNat % 2 = 1 ↔ _
  omega

theorem ipLength_cons (h : UInt8) (rest : List UInt8) :
    ipLength (h :: rest) = (ipPayload (h.toNat / 32)).map (1 + ·) := by
  simp only [ipLength]
  generalize h.toNat / 32 = k
  rcases k with _ | _ | _ | _ | _ | _ | _ | _ | k <;> rfl

theorem ipFrame_length {opcode : UInt8} {bytes : List UInt8} {ip : IPPacket} {n : Nat}
    (framed : ipFrame opcode bytes = some (ip, n)) :
    n ≤ bytes.length ∧ ipLength (bytes.take n) = some n := by
  obtain ⟨h, rest, m, rfl, -, width, fits, rfl, -⟩ := ipFrame_eq_some framed
  rw [Nat.add_comm, List.take_succ_cons, ipLength_cons, width]
  exact ⟨by simp [fits], by simp [Nat.add_comm]⟩

theorem cycFrame_length {bytes : List UInt8} {n : Nat} (framed : cycFrame bytes = some n) :
    n ≤ bytes.length ∧ cycLength (bytes.take n) = some n := by
  match bytes, framed with
  | h :: rest, framed =>
    simp only [cycFrame] at framed
    split at framed
    · split at framed
      · obtain ⟨j, stops, rfl⟩ := Option.map_eq_some'.mp framed
        have fits := stopLength_le stops
        rw [Nat.add_comm, List.take_succ_cons]
        rw [extendedUntil_eq] at stops
        simp [cycLength, stopLength_take stops, fits, Nat.add_comm, ‹h.toNat / 4 % 2 = 1›]
      · cases framed
        simp [cycLength]
        omega
    · cases framed

theorem frame_length {kind : PacketKind} {prevTip : UInt64} {bytes : List UInt8} {pkt : Packet}
    {n : Nat} (framed : frame kind prevTip bytes = some (pkt, n)) :
    n ≤ bytes.length ∧ intelPTLength kind (bytes.take n) = some n := by
  cases kind
  case ShortTNT =>
    match bytes, framed with
    | h :: rest, framed =>
      simp only [frame] at framed
      split at framed <;> cases framed
      exact ⟨by simp, rfl⟩
  all_goals simp only [frame, snapshot, Option.map_eq_some'] at framed
  case TIP | TIPPGE | TIPPGD | FUP =>
    obtain ⟨⟨ip, m⟩, found, same⟩ := framed
    cases (Prod.mk.inj same).2
    exact ipFrame_length found
  case CYC =>
    obtain ⟨m, found, same⟩ := framed
    cases same
    exact cycFrame_length found
  all_goals split at framed <;> cases framed
  case PSB.isTrue pre => exact ⟨pre.length_le, rfl⟩
  case PSBEND.isTrue pre => exact ⟨pre.length_le, rfl⟩
  case PAD.isTrue pre => exact ⟨pre.length_le, rfl⟩
  all_goals exact ⟨‹_ ∧ _›.2, rfl⟩

theorem frame_pos {kind : PacketKind} {prevTip : UInt64} {bytes : List UInt8} {pkt : Packet}
    {n : Nat} (framed : frame kind prevTip bytes = some (pkt, n)) : 0 < n :=
  intelPTLength_pos (frame_length framed).2

namespace PacketParser

theorem pulls_segments {n : Nat} {p r : PacketParser}
    {items : List (Option (Except HWTracerError Packet))}
    (run : p.pulls n = .ok (items, r)) :
    ∃ segments : List (List UInt8), p.bytes = segments.flatten ++ r.bytes ∧
      List.Forall₂ (fun pkt seg => intelPTLength pkt.kind seg = some seg.length)
        (okPackets items) segments := by
  refine pulls_ok_induction
    (motive := fun p pkts r => ∃ segments : List (List UInt8),
      p.bytes = segments.flatten ++ r.bytes ∧
      List.Forall₂ (fun pkt seg => intelPTLength pkt.kind seg = some seg.length) pkts segments)
    (fun _ => ⟨[], rfl, .nil⟩) (fun {p _ _ _ _} pulled ih => ?_) run
  obtain ⟨_, n, _, -, found, -, rfl⟩ := pull_ok pulled
  obtain ⟨segments, split, lengths⟩ := ih
  have framed := (firstFrame_spec found).2
  obtain ⟨fits, length⟩ := frame_length framed
  refine ⟨p.bytes.take n :: segments, ?_, .cons ?_ lengths⟩
  · rw [List.flatten_cons, List.append_assoc, ← split, List.take_append_drop]
  · rw [List.length_take_of_le fits, frame_kind framed]
    exact length

theorem length_le_of_segments {pkts : List Packet} {segments : List (List UInt8)}
    (lengths : List.Forall₂ (fun pkt seg => intelPTLength pkt.kind seg = some seg.length)
      pkts segments) :
    pkts.length ≤ segments.flatten.length := by
  induction lengths with
  | nil => simp
  | cons length _ ih =>
    have := intelPTLength_pos length
    simp only [List.length_cons, List.flatten_cons, List.length_append]
    omega

theorem next_eq_none_iff (p q : PacketParser) : p.next = .ok (none, q) ↔ p.bytes = [] ∧ q = p := by
  rw [next_eq_pull]
  constructor
  · intro pulled
    rcases pull_cases pulled with ⟨empty, -, rfl⟩ | ⟨-, -, item, -⟩ | ⟨_, _, _, _, -, -, -, item, -⟩
    · exact ⟨empty, rfl⟩
    · cases item
    · cases item
  · rintro ⟨empty, rfl⟩
    simp [pull, empty]

/-- Each codec that succeeds on the bytes of a trace reads a positive whole number of them. Along
every run of a new parser, the trace is the bytes of the `Ok` packets, each of its Intel PT
length, followed by the bytes not yet reached; so the run has yielded at most one packet a byte,
and a pull yields `None` exactly when no byte remains. -/
theorem pulls_consume_packet_lengths (b : List UInt8) (n : Nat)
    (items : List (Option (Except HWTracerError Packet))) (r : PacketParser)
    (run : (new b).pulls n = .ok (items, r)) :
    (∀ kind prevTip bytes rest pkt, readKind kind (.fromSlice bytes) prevTip = some (rest, pkt) →
      ∃ m, 0 < m ∧ m ≤ bytes.length ∧ rest = ⟨bytes, 8 * m⟩) ∧
    (∃ segments : List (List UInt8), b = segments.flatten ++ r.bytes ∧
      List.Forall₂ (fun pkt seg => intelPTLength pkt.kind seg = some seg.length)
        (okPackets items) segments) ∧
    (okPackets items).length ≤ b.length ∧
    (∀ q, r.next = .ok (none, q) ↔ r.bytes = [] ∧ q = r) := by
  obtain ⟨segments, split, lengths⟩ := pulls_segments run
  refine ⟨fun kind prevTip bytes rest pkt read => ?_, ⟨segments, split, lengths⟩, ?_,
    next_eq_none_iff r⟩
  · rw [readKind_fromSlice, Option.map_eq_some'] at read
    obtain ⟨⟨pkt, m⟩, framed, same⟩ := read
    cases same
    obtain ⟨fits, length⟩ := frame_length framed
    exact ⟨m, intelPTLength_pos length, fits, rfl⟩
  · have bound := length_le_of_segments lengths
    have whole : b.length = segments.flatten.length + r.bytes.length := by
      rw [show b = _ from split, List.length_append]
    omega

theorem tip_between_psbs_consume_packet_lengths :
    let r : PacketParser := ⟨[], .PSBPlus, 0x1111111111111111⟩
    (new tipBetweenPsbs).pulls 4 = .ok (tipBetweenPsbsItems, r) ∧
      (∀ kind prevTip bytes rest pkt, readKind kind (.fromSlice bytes) prevTip = some (rest, pkt) →
        ∃ m, 0 < m ∧ m ≤ bytes.length ∧ rest = ⟨bytes, 8 * m⟩) ∧
      (∃ segments : List (List UInt8), tipBetweenPsbs = segments.flatten ++ r.bytes ∧
        List.Forall₂ (fun pkt seg => intelPTLength pkt.kind seg = some seg.length)
          (okPackets tipBetweenPsbsItems) segments) ∧
      (okPackets tipBetweenPsbsItems).length ≤ tipBetweenPsbs.length ∧
      (∀ q, r.next = .ok (none, q) ↔ r.bytes = [] ∧ q = r) :=
  ⟨tipBetweenPsbs_run, pulls_consume_packet_lengths _ _ _ _ tipBetweenPsbs_run⟩

theorem pull_ok_consumes {p q : PacketParser} {pkt : Packet}
    (pulled : p.pull = .ok (some (.ok pkt), q)) : q.bytes.length < p.bytes.length := by
  obtain ⟨_, _, _, -, found, -, rfl⟩ := pull_ok pulled
  obtain ⟨fits, length⟩ := frame_length (firstFrame_spec found).2
  have consumed := intelPTLength_pos length
  rw [List.length_drop]
  omega

theorem pulls_settle {n : Nat} {p r : PacketParser}
    {items : List (Option (Except HWTracerError Packet))} (enough : p.bytes.length < n)
    (run : p.pulls n = .ok (items, r)) :
    (r.bytes = [] ∧ r.pull = .ok (none, r)) ∨ r.pull = .ok (some (.error r.traceParseError), r) := by
  induction n generalizing p items with
  | zero => omega
  | succ n ih =>
    obtain ⟨item, q, rest, pulled, rest_run, rfl⟩ := pulls_succ_eq_ok.mp run
    rcases pull_cases pulled with ⟨empty, rfl, rfl⟩ | ⟨-, -, rfl, rfl⟩ | ⟨_, _, _, _, -, -, -, rfl, -⟩
    · obtain rfl := pulls_end_of_fixed pulled rest_run
      exact .inl ⟨empty, pulled⟩
    · obtain rfl := pulls_end_of_fixed pulled rest_run
      exact .inr pulled
    · have consumed := pull_ok_consumes pulled
      exact ih (by omega) rest_run

/-- Unless it panics, the iterator settles within one pull more than the trace has bytes: from
there on it either has consumed the trace and yields `None` forever, or repeats forever the
error of the parse that failed, and no pull moves it. -/
theorem pulls_settle_within_trace_length (b : List UInt8) (n : Nat)
    (items : List (Option (Except HWTracerError Packet))) (r : PacketParser)
    (enough : b.length < n) (run : (new b).pulls n = .ok (items, r)) :
    (r.bytes = [] ∧ ∀ m, r.pulls m = .ok (List.replicate m none, r)) ∨
      ∀ m, r.pulls m = .ok (List.replicate m (some (.error r.traceParseError)), r) := by
  rcases pulls_settle (p := new b) enough run with ⟨empty, pulled⟩ | pulled
  · exact .inl ⟨empty, pulls_of_fixed pulled⟩
  · exact .inr (pulls_of_fixed pulled)

theorem psb_psbend_settles :
    let b : List UInt8 := PSBPacket.magic ++ [0x02, 0x23]
    let r : PacketParser := ⟨[], .Normal, 0⟩
    (b.length < 19 ∧
      (new b).pulls 19 = .ok (some (.ok .PSB) :: some (.ok .PSBEND) :: List.replicate 17 none, r)) ∧
      ((r.bytes = [] ∧ ∀ m, r.pulls m = .ok (List.replicate m none, r)) ∨
        ∀ m, r.pulls m = .ok (List.replicate m (some (.error r.traceParseError)), r)) :=
  have run : (new (PSBPacket.magic ++ [0x02, 0x23])).pulls 19 =
      .ok (some (.ok .PSB) :: some (.ok .PSBEND) :: List.replicate 17 none, ⟨[], .Normal, 0⟩) := by
    simp only [pulls, next_eq_pull]
    decide
  ⟨⟨by decide, run⟩, pulls_settle_within_trace_length _ _ _ _ (by decide) run⟩

end PacketParser

end YkptParser

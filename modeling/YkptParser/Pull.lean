import YkptParser.Framing

/-! One pull of the iterator stated on the framing of the remaining bytes: `firstFrame` is the
first kind of the state's list whose framing matches the start of the bytes, `next_eq_pull` says
everything `next` can do, and the later modules reason about `pull` only, through the inversion
lemmas `pull_cases`, `pull_panics` and `pull_ok`. The early assignment of `Normal` in
`parse_state` on a PSBEND agrees with the `transition` of `parse_packet` that follows it. -/

namespace YkptParser

def firstFrame (prevTip : UInt64) (bytes : List UInt8) :
    List PacketKind → Option (PacketKind × Packet × Nat)
  | [] => none
  | kind :: kinds =>
    match frame kind prevTip bytes with
    | some (pkt, n) => some (kind, pkt, n)
    | none => firstFrame prevTip bytes kinds

section Frames

variable {kind : PacketKind} {prevTip : UInt64} {bytes : List UInt8} {pkt : Packet} {n : Nat}

theorem firstFrame_spec {kinds : List PacketKind}
    (found : firstFrame prevTip bytes kinds = some (kind, pkt, n)) :
    kind ∈ kinds ∧ frame kind prevTip bytes = some (pkt, n) := by
  induction kinds with
  | nil => cases found
  | cons first kinds ih =>
    simp only [firstFrame] at found
    split at found
    · cases found
      exact ⟨List.mem_cons_self _ _, ‹_›⟩
    · exact ⟨List.mem_cons_of_mem _ (ih found).1, (ih found).2⟩

theorem firstFrame_eq_none_iff {kinds : List PacketKind} :
    firstFrame prevTip bytes kinds = none ↔ ∀ kind ∈ kinds, frame kind prevTip bytes = none := by
  induction kinds with
  | nil => simp [firstFrame]
  | cons first kinds ih =>
    simp only [firstFrame, List.mem_cons, forall_eq_or_imp]
    split <;> simp_all

end Frames

theorem transition_after_psbend (state : PacketParserState) {kind : PacketKind}
    (valid : kind ∈ state.validPackets) :
    (if kind = .PSBEND then .Normal else state).transition kind = state.transition kind := by
  revert valid
  cases state <;> cases kind <;> decide

namespace PacketParser

theorem parseStateFrom_eq (p : PacketParser) (kinds : List PacketKind) :
    p.parseStateFrom kinds = match firstFrame p.prevTip p.bytes kinds with
      | some (kind, pkt, n) =>
        (.ok pkt, { p with bytes := p.bytes.drop n,
                           state := if kind = .PSBEND then .Normal else p.state })
      | none => (.error p.traceParseError, p) := by
  induction kinds with
  | nil => rfl
  | cons kind kinds ih =>
    simp only [parseStateFrom, parseKind_eq, firstFrame]
    cases frame kind p.prevTip p.bytes with
    | none => exact ih
    | some framed => by_cases psbend : kind = .PSBEND <;> simp [psbend]

def pull (p : PacketParser) : Except Panic (Option (Except HWTracerError Packet) × PacketParser) :=
  if p.bytes = [] then .ok (none, p) else
  match firstFrame p.prevTip p.bytes p.state.validPackets with
  | none => .ok (some (.error p.traceParseError), p)
  | some (kind, pkt, n) =>
    pkt.targetIp.map fun tip =>
      (some (.ok pkt), ⟨p.bytes.drop n, p.state.transition kind, tip.getD p.prevTip⟩)

theorem next_eq_pull (p : PacketParser) : p.next = p.pull := by
  by_cases empty : p.bytes = []
  · simp [next, pull, empty]
    rfl
  · simp only [next, pull, empty, parsePacket, parseState, parseStateFrom_eq]
    cases found : firstFrame p.prevTip p.bytes p.state.validPackets with
    | none => simp [empty]; rfl
    | some result =>
      obtain ⟨kind, pkt, n⟩ := result
      obtain ⟨valid, framed⟩ := firstFrame_spec found
      have settled := transition_after_psbend p.state valid
      cases tip : pkt.targetIp with
      | error e => simp [empty, tip]; rfl
      | ok ip => cases ip <;> simp [empty, tip, frame_kind framed, settled] <;> rfl

theorem pull_cases {p q : PacketParser} {item : Option (Except HWTracerError Packet)}
    (pulled : p.pull = .ok (item, q)) :
    (p.bytes = [] ∧ item = none ∧ q = p) ∨
    (p.bytes ≠ [] ∧ firstFrame p.prevTip p.bytes p.state.validPackets = none ∧
      item = some (.error p.traceParseError) ∧ q = p) ∨
    (∃ kind pkt n tip, p.bytes ≠ [] ∧
      firstFrame p.prevTip p.bytes p.state.validPackets = some (kind, pkt, n) ∧
      pkt.targetIp = .ok tip ∧ item = some (.ok pkt) ∧
      q = ⟨p.bytes.drop n, p.state.transition kind, tip.getD p.prevTip⟩) := by
  unfold pull at pulled
  split at pulled
  · cases pulled
    exact .inl ⟨‹_›, rfl, rfl⟩
  · split at pulled
    · cases pulled
      exact .inr (.inl ⟨‹_›, ‹_›, rfl, rfl⟩)
    · rename_i kind pkt n found
      cases tip : pkt.targetIp with
      | error e => simp [tip, Except.map] at pulled
      | ok ip =>
        simp only [tip, Except.map, Except.ok.injEq, Prod.mk.injEq] at pulled
        obtain ⟨rfl, rfl⟩ := pulled
        exact .inr (.inr ⟨kind, pkt, n, ip, ‹_›, found, tip, rfl, rfl⟩)

theorem pull_panics {p : PacketParser} {e : Panic} (panicked : p.pull = .error e) :
    ∃ kind pkt n, p.bytes ≠ [] ∧
      firstFrame p.prevTip p.bytes p.state.validPackets = some (kind, pkt, n) ∧
      pkt.targetIp = .error e := by
  unfold pull at panicked
  split at panicked
  · cases panicked
  split at panicked
  · cases panicked
  rename_i kind pkt n found
  cases tip : pkt.targetIp with
  | ok => simp [tip, Except.map] at panicked
  | error e' =>
    simp only [tip, Except.map, Except.error.injEq] at panicked
    exact ⟨kind, pkt, n, ‹_›, found, panicked ▸ tip⟩

theorem pull_ok {p q : PacketParser} {pkt : Packet} (pulled : p.pull = .ok (some (.ok pkt), q)) :
    ∃ kind n tip, p.bytes ≠ [] ∧
      firstFrame p.prevTip p.bytes p.state.validPackets = some (kind, pkt, n) ∧
      pkt.targetIp = .ok tip ∧ q = ⟨p.bytes.drop n, p.state.transition kind, tip.getD p.prevTip⟩ := by
  rcases pull_cases pulled with ⟨-, item, -⟩ | ⟨-, -, item, -⟩ | ⟨kind, _, n, tip, nonempty, found, ip, item, rfl⟩
  · cases item
  · cases item
  · cases item
    exact ⟨kind, n, tip, nonempty, found, ip, rfl⟩

end PacketParser

end YkptParser

import YkptParser.Pull

/-! Runs of the iterator: what every sequence of pulls keeps. A run of `n` calls of `next` is
`pulls n`; `pulls_induction` does the induction over its pulls once and `pulls_ok_induction`
over the packets it yields, and each result below is a lemma about one pull, read off
`pull_cases` or `pull_ok`, lifted by one of them. A failed pull changes nothing, so it repeats
forever. The kinds of the packets follow the parser's automaton, and `prev_tip` is the
last IP of the packets, each IP packet caching the one before it. -/

namespace YkptParser

def okPackets : List (Option (Except HWTracerError Packet)) → List Packet
  | [] => []
  | some (.ok pkt) :: items => pkt :: okPackets items
  | _ :: items => okPackets items

namespace PacketParser

theorem pulls_succ_eq_ok {n : Nat} {p r : PacketParser}
    {items : List (Option (Except HWTracerError Packet))} :
    p.pulls (n + 1) = .ok (items, r) ↔
      ∃ item q rest, p.pull = .ok (item, q) ∧ q.pulls n = .ok (rest, r) ∧ items = item :: rest := by
  rw [pulls, ← next_eq_pull]
  cases p.next with
  | error e => simp [bind, Except.bind]
  | ok result =>
    obtain ⟨item, q⟩ := result
    cases run : q.pulls n with
    | error e => simp [bind, Except.bind, run]
    | ok result =>
      obtain ⟨rest, r'⟩ := result
      simp [bind, Except.bind, pure, Except.pure, run, and_assoc, eq_comm, and_comm]

theorem pulls_induction
    {motive : PacketParser → List (Option (Except HWTracerError Packet)) → PacketParser → Prop}
    (nil : ∀ p, motive p [] p)
    (cons : ∀ {p q r item items}, p.pull = .ok (item, q) → motive q items r →
      motive p (item :: items) r)
    {n : Nat} {p r : PacketParser} {items : List (Option (Except HWTracerError Packet))}
    (run : p.pulls n = .ok (items, r)) : motive p items r := by
  induction n generalizing p items with
  | zero =>
    cases run
    exact nil _
  | succ n ih =>
    obtain ⟨item, q, rest, pulled, rest_run, rfl⟩ := pulls_succ_eq_ok.mp run
    exact cons pulled (ih rest_run)

theorem pulls_ok_induction {motive : PacketParser → List Packet → PacketParser → Prop}
    (nil : ∀ p, motive p [] p)
    (cons : ∀ {p q r pkt pkts}, p.pull = .ok (some (.ok pkt), q) → motive q pkts r →
      motive p (pkt :: pkts) r)
    {n : Nat} {p r : PacketParser} {items : List (Option (Except HWTracerError Packet))}
    (run : p.pulls n = .ok (items, r)) : motive p (okPackets items) r := by
  refine pulls_induction (motive := fun p items r => motive p (okPackets items) r) nil
    (fun pulled ih => ?_) run
  rcases pull_cases pulled with ⟨-, rfl, rfl⟩ | ⟨-, -, rfl, rfl⟩ | ⟨_, _, _, _, -, -, -, rfl, -⟩
  · exact ih
  · exact ih
  · exact cons pulled ih

/-! ## A failed pull -/

theorem pull_error {p q : PacketParser} {e : HWTracerError}
    (pulled : p.pull = .ok (some (.error e), q)) :
    q = p ∧ e = p.traceParseError ∧ firstFrame p.prevTip p.bytes p.state.validPackets = none := by
  rcases pull_cases pulled with ⟨-, item, -⟩ | ⟨-, found, item, rfl⟩ | ⟨_, _, _, _, -, -, -, item, -⟩
  · cases item
  · cases item
    exact ⟨rfl, rfl, found⟩
  · cases item

theorem pulls_of_fixed {p : PacketParser} {item : Option (Except HWTracerError Packet)}
    (pulled : p.pull = .ok (item, p)) (n : Nat) :
    p.pulls n = .ok (List.replicate n item, p) := by
  induction n with
  | zero => rfl
  | succ n ih => simp [pulls, next_eq_pull, pulled, ih, bind, Except.bind, pure, Except.pure, List.replicate_succ]

theorem pulls_end_of_fixed {p r : PacketParser} {item : Option (Except HWTracerError Packet)}
    {n : Nat} {items : List (Option (Except HWTracerError Packet))}
    (pulled : p.pull = .ok (item, p)) (run : p.pulls n = .ok (items, r)) : r = p := by
  rw [pulls_of_fixed pulled n] at run
  exact (Prod.mk.inj (Except.ok.inj run)).2.symm

/-- A pull from a configuration with bytes left fails exactly when no codec of the state's kinds
reads the bytes; then it leaves the configuration as it was, with the error naming the state and
the next bytes, and every later pull fails the same way. -/
theorem pull_error_iff_no_codec (p : PacketParser) (nonempty : p.bytes ≠ []) :
    ((∃ e q, p.next = .ok (some (.error e), q)) ↔
      ∀ kind ∈ p.state.validPackets, readKind kind (.fromSlice p.bytes) p.prevTip = none) ∧
    ∀ e q, p.next = .ok (some (.error e), q) →
      q = p ∧ e = p.traceParseError ∧ ∀ n, q.pulls n = .ok (List.replicate n (some (.error e)), q) := by
  simp only [readKind_fromSlice, Option.map_eq_none', ← firstFrame_eq_none_iff, next_eq_pull]
  refine ⟨⟨fun ⟨_, _, pulled⟩ => (pull_error pulled).2.2, fun found => ?_⟩, ?_⟩
  · exact ⟨p.traceParseError, p, by simp [pull, nonempty, found]⟩
  · intro e q pulled
    obtain ⟨rfl, rfl, -⟩ := pull_error pulled
    exact ⟨rfl, rfl, pulls_of_fixed pulled⟩

theorem pad_in_init_pull_error :
    let p : PacketParser := ⟨[0x00], .Init, 0⟩
    p.bytes ≠ [] ∧
      ((∃ e q, p.next = .ok (some (.error e), q)) ↔
        ∀ kind ∈ p.state.validPackets, readKind kind (.fromSlice p.bytes) p.prevTip = none) ∧
      ∀ e q, p.next = .ok (some (.error e), q) →
        q = p ∧ e = p.traceParseError ∧
          ∀ n, q.pulls n = .ok (List.replicate n (some (.error e)), q) :=
  ⟨by decide, pull_error_iff_no_codec _ (by decide)⟩

end PacketParser

/-! ## The automaton of packet kinds

`Admits` is the automaton a trace's packet kinds follow, stated apart from the code: a PSB opens
a PSB+ sequence of CBRs, which a PSBEND closes; outside it come the other kinds, or a PSB again.
`Word` strings its steps together. -/

inductive Admits : PacketParserState → PacketKind → PacketParserState → Prop
  | init_psb : Admits .Init .PSB .PSBPlus
  | psbplus_cbr : Admits .PSBPlus .CBR .PSBPlus
  | psbplus_psbend : Admits .PSBPlus .PSBEND .Normal
  | normal_psb : Admits .Normal .PSB .PSBPlus
  | normal {kind : PacketKind}
      (other : kind ∈ [.ShortTNT, .PAD, .FUP, .TIP, .CYC, .LongTNT, .MODE, .TIPPGE, .TIPPGD]) :
      Admits .Normal kind .Normal

inductive Word : PacketParserState → List PacketKind → PacketParserState → Prop
  | nil (state : PacketParserState) : Word state [] state
  | cons {state kind next kinds last} :
      Admits state kind next → Word next kinds last → Word state (kind :: kinds) last

theorem admits_transition {state : PacketParserState} {kind : PacketKind}
    (valid : kind ∈ state.validPackets) : Admits state kind (state.transition kind) := by
  cases state <;> cases kind <;> simp [PacketParserState.validPackets] at valid
  all_goals first
    | exact .normal (by decide)
    | constructor

theorem word_head_psb {kind : PacketKind} {kinds : List PacketKind} {last : PacketParserState}
    (word : Word .Init (kind :: kinds) last) : kind = .PSB := by
  rcases word with _ | ⟨⟨⟩, -⟩
  rfl

theorem word_ne_init {state last : PacketParserState} {kinds : List PacketKind}
    (word : Word state kinds last) (nonempty : kinds ≠ []) : last ≠ .Init := by
  induction word with
  | nil => exact absurd rfl nonempty
  | cons admits rest ih =>
    cases rest with
    | nil => cases admits <;> simp
    | cons => exact ih (List.cons_ne_nil _ _)

namespace PacketParser

theorem pull_valid {p q : PacketParser} {pkt : Packet}
    (pulled : p.pull = .ok (some (.ok pkt), q)) :
    pkt.kind ∈ p.state.validPackets ∧ q.state = p.state.transition pkt.kind := by
  obtain ⟨kind, _, _, -, found, -, rfl⟩ := pull_ok pulled
  obtain ⟨valid, framed⟩ := firstFrame_spec found
  rw [frame_kind framed]
  exact ⟨valid, rfl⟩

theorem pull_admits {p q : PacketParser} {pkt : Packet}
    (pulled : p.pull = .ok (some (.ok pkt), q)) : Admits p.state pkt.kind q.state := by
  obtain ⟨valid, next⟩ := pull_valid pulled
  rw [next]
  exact admits_transition valid

theorem pulls_word {n : Nat} {p r : PacketParser}
    {items : List (Option (Except HWTracerError Packet))}
    (run : p.pulls n = .ok (items, r)) :
    Word p.state ((okPackets items).map Packet.kind) r.state :=
  pulls_ok_induction (motive := fun p pkts r => Word p.state (pkts.map Packet.kind) r.state)
    (fun _ => .nil _) (fun pulled word => .cons (pull_admits pulled) word) run

/-- Every `Ok` packet of a run of a new parser has a kind the state before it admits, and the
pull moves to the state `transition` gives it; so their kinds, in order, are a word of the
automaton from `Init` to the parser's state. The first is a PSB, and once a packet is yielded
the parser never returns to `Init`. -/
theorem pulls_follow_automaton (b : List UInt8) (n : Nat)
    (items : List (Option (Except HWTracerError Packet))) (r : PacketParser)
    (run : (new b).pulls n = .ok (items, r)) :
    (∀ (p q : PacketParser) (pkt : Packet), p.next = .ok (some (.ok pkt), q) →
      pkt.kind ∈ p.state.validPackets ∧ q.state = p.state.transition pkt.kind) ∧
    Word .Init ((okPackets items).map Packet.kind) r.state ∧
    (∀ kind kinds, (okPackets items).map Packet.kind = kind :: kinds → kind = .PSB) ∧
    (okPackets items ≠ [] → r.state ≠ .Init) := by
  have word := pulls_word run
  exact ⟨fun p _ _ pulled => pull_valid (next_eq_pull p ▸ pulled), word,
    fun _ _ kinds => word_head_psb (kinds ▸ word),
    fun nonempty => word_ne_init word (by simpa using nonempty)⟩

end PacketParser

/-! ## The IP compression context

The last IP moves to the target IP of each packet that has one (`nextIp`, `lastIp`);
`CachesLastIp` says that each IP packet caches the last IP before it when its `IPBytes` needs it,
and nothing otherwise. `tipBetweenPsbs` is a trace of a PSB+ sequence, a TIP of a full 64-bit IP
and a second PSB, and `lastIpResetAtPSB` the last IP as Intel PT decoders keep it, reset to 0 at
every PSB. -/

def nextIp (last : UInt64) (pkt : Packet) : UInt64 :=
  match pkt.targetIp with
  | .ok (some v) => v
  | _ => last

def lastIp (last : UInt64) (pkts : List Packet) : UInt64 := pkts.foldl nextIp last

def CachesLastIp : UInt64 → List Packet → Prop
  | _, [] => True
  | last, pkt :: pkts =>
    (∀ ip cached, pkt.ipFields = some (ip, cached) →
      cached = if ip.ipBytes.needsPrevTip then some last else none) ∧
    CachesLastIp (nextIp last pkt) pkts

def tipBetweenPsbs : List UInt8 :=
  PSBPacket.magic ++ [0x02, 0x23, 0xcd, 0x11, 0x11, 0x11, 0x11, 0x11, 0x11, 0x11, 0x11] ++
    PSBPacket.magic

def tipBetweenPsbsItems : List (Option (Except HWTracerError Packet)) :=
  [some (.ok .PSB), some (.ok .PSBEND), some (.ok (.TIP ⟨⟨6⟩, .Ip64 0x1111111111111111⟩ none)),
    some (.ok .PSB)]

namespace PacketParser

theorem pull_prevTip {p q : PacketParser} {pkt : Packet}
    (pulled : p.pull = .ok (some (.ok pkt), q)) :
    (∀ ip cached, pkt.ipFields = some (ip, cached) →
      cached = if ip.ipBytes.needsPrevTip then some p.prevTip else none) ∧
    q.prevTip = nextIp p.prevTip pkt := by
  obtain ⟨_, _, tip, -, found, ip, rfl⟩ := pull_ok pulled
  refine ⟨fun _ _ fields => ?_, by cases tip <;> simp [nextIp, ip]⟩
  obtain ⟨-, -, cached⟩ := frame_ipFields (firstFrame_spec found).2 fields
  exact cached

theorem pulls_last_ip {n : Nat} {p r : PacketParser}
    {items : List (Option (Except HWTracerError Packet))}
    (run : p.pulls n = .ok (items, r)) :
    CachesLastIp p.prevTip (okPackets items) ∧ r.prevTip = lastIp p.prevTip (okPackets items) := by
  refine pulls_ok_induction
    (motive := fun p pkts r => CachesLastIp p.prevTip pkts ∧ r.prevTip = lastIp p.prevTip pkts)
    (fun _ => ⟨trivial, rfl⟩) (fun pulled ih => ?_) run
  obtain ⟨cached, next⟩ := pull_prevTip pulled
  obtain ⟨caches, last⟩ := ih
  rw [next] at caches last
  exact ⟨⟨cached, caches⟩, last⟩

/-- Along every run of a new parser, each IP packet whose `IPBytes` needs the previous IP caches
the last IP of the packets before it, and `prev_tip` is the last IP of the packets yielded: the
target IP of the last packet that has one, or 0. -/
theorem pulls_thread_last_ip (b : List UInt8) (n : Nat)
    (items : List (Option (Except HWTracerError Packet))) (r : PacketParser)
    (run : (new b).pulls n = .ok (items, r)) :
    CachesLastIp 0 (okPackets items) ∧ r.prevTip = lastIp 0 (okPackets items) :=
  pulls_last_ip run

theorem tipBetweenPsbs_run :
    (new tipBetweenPsbs).pulls 4 = .ok (tipBetweenPsbsItems, ⟨[], .PSBPlus, 0x1111111111111111⟩) := by
  simp only [pulls, next_eq_pull]
  decide

theorem tip_between_psbs_thread_last_ip :
    (new tipBetweenPsbs).pulls 4 = .ok (tipBetweenPsbsItems, ⟨[], .PSBPlus, 0x1111111111111111⟩) ∧
      CachesLastIp 0 (okPackets tipBetweenPsbsItems) ∧
      (⟨[], .PSBPlus, 0x1111111111111111⟩ : PacketParser).prevTip =
        lastIp 0 (okPackets tipBetweenPsbsItems) :=
  ⟨tipBetweenPsbs_run, pulls_thread_last_ip _ _ _ _ tipBetweenPsbs_run⟩

theorem tip_between_psbs_follow_automaton :
    (new tipBetweenPsbs).pulls 4 = .ok (tipBetweenPsbsItems, ⟨[], .PSBPlus, 0x1111111111111111⟩) ∧
      (∀ (p q : PacketParser) (pkt : Packet), p.next = .ok (some (.ok pkt), q) →
        pkt.kind ∈ p.state.validPackets ∧ q.state = p.state.transition pkt.kind) ∧
      Word .Init ((okPackets tipBetweenPsbsItems).map Packet.kind) .PSBPlus ∧
      (∀ kind kinds, (okPackets tipBetweenPsbsItems).map Packet.kind = kind :: kinds → kind = .PSB) ∧
      (okPackets tipBetweenPsbsItems ≠ [] → PacketParserState.PSBPlus ≠ .Init) :=
  ⟨tipBetweenPsbs_run, pulls_follow_automaton _ _ _ _ tipBetweenPsbs_run⟩

end PacketParser

def lastIpResetAtPSB (last : UInt64) : List Packet → UInt64
  | [] => last
  | pkt :: pkts => lastIpResetAtPSB (if pkt.kind = .PSB then 0 else nextIp last pkt) pkts

/-- The parser keeps `prev_tip` across a PSB: after a TIP and a second PSB it still holds the
TIP's IP, where the last IP reset at the PSB is 0. -/
theorem prev_tip_kept_across_psb :
    (PacketParser.new tipBetweenPsbs).pulls 4 =
        .ok (tipBetweenPsbsItems, ⟨[], .PSBPlus, 0x1111111111111111⟩) ∧
      (0x1111111111111111 : UInt64) ≠ lastIpResetAtPSB 0 (okPackets tipBetweenPsbsItems) :=
  ⟨PacketParser.tipBetweenPsbs_run, by decide⟩

end YkptParser

import YkptParser.Consumption

/-! Truncating a trace keeps what was decoded from it. Each framing reads only the bytes of its
own packet (`frame_append_iff`), and two framings that both read the start of the same bytes read
the same number of them (`frame_length_agree`): the header bytes of the twelve kinds, which
`Header` lists as the framings require them of the first two bytes, overlap only for ShortTNT
and PAD, one byte each. So a kind that failed for want of bytes cannot succeed once
more bytes follow and come ahead of the kind that succeeded. -/

namespace YkptParser

def Header : PacketKind → Nat → Nat → Prop
  | .PSB, h, s => h = 0x02 ∧ s = 0x82
  | .CBR, h, s => h = 0x02 ∧ s = 0x03
  | .PSBEND, h, s => h = 0x02 ∧ s = 0x23
  | .LongTNT, h, s => h = 0x02 ∧ s = 0xa3
  | .PAD, h, _ => h = 0
  | .MODE, h, _ => h = 0x99
  | .ShortTNT, h, _ => h / 2 ≠ 1 ∧ h % 2 = 0
  | .TIPPGE, h, _ => h % 32 = 0x11
  | .TIPPGD, h, _ => h % 32 = 0x01
  | .TIP, h, _ => h % 32 = 0x0d
  | .FUP, h, _ => h % 32 = 0x1d
  | .CYC, h, _ => h % 4 = 3

theorem header_overlap {kind kind' : PacketKind} {h s : Nat} (header : Header kind h s)
    (header' : Header kind' h s) :
    kind = kind' ∨ (kind = .ShortTNT ∧ kind' = .PAD) ∨ (kind = .PAD ∧ kind' = .ShortTNT) := by
  cases kind <;> cases kind' <;> simp only [Header] at header header' <;> first | omega | simp

theorem frame_header {kind : PacketKind} {prevTip : UInt64} {bytes : List UInt8} {pkt : Packet}
    {n : Nat} (framed : frame kind prevTip bytes = some (pkt, n)) :
    ∃ h rest, bytes = h :: rest ∧ Header kind h.toNat (rest.headD 0).toNat := by
  cases kind
  case ShortTNT =>
    match bytes, framed with
    | h :: rest, framed =>
      simp only [frame] at framed
      split at framed <;> cases framed
      exact ⟨h, rest, rfl, ‹_›⟩
  all_goals simp only [frame, snapshot, Option.map_eq_some'] at framed
  case TIP | TIPPGE | TIPPGD | FUP =>
    obtain ⟨⟨ip, m⟩, found, -⟩ := framed
    obtain ⟨h, rest, _, rfl, opcode, -⟩ := ipFrame_eq_some found
    exact ⟨h, rest, rfl, opcode⟩
  case CYC =>
    obtain ⟨m, found, -⟩ := framed
    match bytes, found with
    | h :: rest, found =>
      simp only [cycFrame] at found
      split at found
      · exact ⟨h, rest, rfl, ‹_›⟩
      · cases found
  all_goals
    split at framed <;> cases framed
    rename_i pre
    first | obtain ⟨t, rfl⟩ := pre | obtain ⟨⟨t, rfl⟩, -⟩ := pre
    first | exact ⟨_, _, rfl, rfl, rfl⟩ | exact ⟨_, _, rfl, rfl⟩

theorem frame_length_agree {kind kind' : PacketKind} {prevTip : UInt64} {bytes : List UInt8}
    {pkt pkt' : Packet} {n n' : Nat} (framed : frame kind prevTip bytes = some (pkt, n))
    (framed' : frame kind' prevTip bytes = some (pkt', n')) : n = n' := by
  obtain ⟨h, rest, rfl, header⟩ := frame_header framed
  obtain ⟨_, _, same, header'⟩ := frame_header framed'
  cases same
  have one {kind : PacketKind} {pkt : Packet} {n : Nat} (short : kind = .ShortTNT ∨ kind = .PAD)
      (framed : frame kind prevTip (h :: rest) = some (pkt, n)) : n = 1 := by
    have length := (frame_length framed).2
    rcases short with rfl | rfl <;> exact (Option.some.inj length).symm
  rcases header_overlap header header' with rfl | ⟨rfl, rfl⟩ | ⟨rfl, rfl⟩
  · rw [framed] at framed'
    cases framed'
    rfl
  · rw [one (.inl rfl) framed, one (.inr rfl) framed']
  · rw [one (.inr rfl) framed, one (.inl rfl) framed']

/-! ## Each framing reads only its own packet -/

section Append

variable {bytes c : List UInt8}

theorem prefix_append_iff {m : List UInt8} (fits : m.length ≤ bytes.length) :
    m <+: bytes ++ c ↔ m <+: bytes :=
  ⟨fun pre => List.prefix_of_prefix_length_le pre (List.prefix_append _ _) fits,
    fun pre => pre.trans (List.prefix_append _ _)⟩

theorem stopLength_append_iff {stop : UInt8 → Bool} {n : Nat} (fits : n ≤ bytes.length) :
    stopLength stop (bytes ++ c) = some n ↔ stopLength stop bytes = some n := by
  induction bytes generalizing n with
  | nil =>
    cases Nat.le_zero.mp fits
    simp only [List.nil_append, stopLength, reduceCtorEq, iff_false]
    intro found
    cases c with
    | nil => cases found
    | cons e es =>
      simp only [stopLength] at found
      split at found
      · cases found
      · obtain ⟨m, -, same⟩ := Option.map_eq_some'.mp found
        omega
  | cons e es ih =>
    simp only [List.cons_append, stopLength]
    split
    · rfl
    · cases n with
      | zero => simp
      | succ n =>
        simp only [Option.map_eq_some', Nat.add_right_cancel_iff, exists_eq_right]
        exact ih (by simpa using fits)

theorem ipFrame_append_iff {opcode : UInt8} {ip : IPPacket} {n : Nat} (fits : n ≤ bytes.length) :
    ipFrame opcode (bytes ++ c) = some (ip, n) ↔ ipFrame opcode bytes = some (ip, n) := by
  cases bytes with
  | nil =>
    cases Nat.le_zero.mp fits
    exact iff_of_false (fun found => nomatch (ipFrame_length found).2) nofun
  | cons h rest =>
    simp only [List.cons_append, ipFrame]
    split
    · cases ipPayload (h.toNat / 32) with
      | none => simp only [Option.none_bind]
      | some m =>
        simp only [Option.some_bind, List.length_append, Option.ite_none_right_eq_some, Option.some.injEq,
          Prod.mk.injEq]
        constructor
        · rintro ⟨-, rfl, rfl⟩
          have short : m ≤ rest.length := by simp at fits; omega
          exact ⟨short, by rw [List.take_append_of_le_length short], rfl⟩
        · rintro ⟨short, rfl, rfl⟩
          exact ⟨by omega, by rw [List.take_append_of_le_length short], rfl⟩
    · rfl

theorem cycFrame_append_iff {n : Nat} (fits : n ≤ bytes.length) :
    cycFrame (bytes ++ c) = some n ↔ cycFrame bytes = some n := by
  cases bytes with
  | nil =>
    cases Nat.le_zero.mp fits
    exact iff_of_false (fun found => nomatch (cycFrame_length found).2) nofun
  | cons h rest =>
    simp only [List.cons_append, cycFrame]
    split
    · split
      · cases n with
        | zero => simp
        | succ n =>
          simp only [Option.map_eq_some', Nat.add_comm 1, Nat.add_right_cancel_iff, exists_eq_right]
          exact stopLength_append_iff (by simpa using fits)
      · rfl
    · rfl

theorem snapshot_congr {discr : IPPacket → Option UInt64 → Packet} {prevTip : UInt64}
    {found found' : Option (IPPacket × Nat)} {pkt : Packet} {n : Nat}
    (same : ∀ ip, found = some (ip, n) ↔ found' = some (ip, n)) :
    snapshot discr prevTip found = some (pkt, n) ↔ snapshot discr prevTip found' = some (pkt, n) := by
  simp only [snapshot, Option.map_eq_some', Prod.exists, Prod.mk.injEq]
  constructor
  · rintro ⟨ip, m, found, built, rfl⟩
    exact ⟨ip, m, (same ip).mp found, built, rfl⟩
  · rintro ⟨ip, m, found, built, rfl⟩
    exact ⟨ip, m, (same ip).mpr found, built, rfl⟩

theorem fixed_append_iff {C : List UInt8 → Prop} [DecidablePred C] {kind : Packet}
    {fixed n : Nat} {pkt : Packet} (fits : n ≤ bytes.length)
    (stays : fixed ≤ bytes.length → (C (bytes ++ c) ↔ C bytes)) :
    (if C (bytes ++ c) then some (kind, fixed) else none) = some (pkt, n) ↔
      (if C bytes then some (kind, fixed) else none) = some (pkt, n) := by
  simp only [Option.ite_none_right_eq_some, Option.some.injEq, Prod.mk.injEq]
  constructor
  · rintro ⟨holds, rfl, rfl⟩
    exact ⟨(stays fits).mp holds, rfl, rfl⟩
  · rintro ⟨holds, rfl, rfl⟩
    exact ⟨(stays fits).mpr holds, rfl, rfl⟩

theorem frame_append_iff {kind : PacketKind} {prevTip : UInt64} {pkt : Packet} {n : Nat}
    (fits : n ≤ bytes.length) :
    frame kind prevTip (bytes ++ c) = some (pkt, n) ↔ frame kind prevTip bytes = some (pkt, n) := by
  have within {m : List UInt8} {k : Nat} (short : m.length ≤ k) :
      k ≤ bytes.length → (m <+: bytes ++ c ∧ k ≤ (bytes ++ c).length ↔ m <+: bytes ∧ k ≤ bytes.length) :=
    fun fits => and_congr (prefix_append_iff (short.trans fits)) (by simp; omega)
  cases kind
  case PSB =>
    exact fixed_append_iff (C := (PSBPacket.magic <+: ·)) fits fun fits => prefix_append_iff fits
  case PSBEND =>
    exact fixed_append_iff (C := ([0x02, 0x23] <+: ·)) fits fun fits => prefix_append_iff fits
  case PAD => exact fixed_append_iff (C := ([0x00] <+: ·)) fits fun fits => prefix_append_iff fits
  case CBR =>
    exact fixed_append_iff (C := fun bytes => [0x02, 0x03] <+: bytes ∧ 4 ≤ bytes.length) fits
      (within (by decide))
  case MODE =>
    exact fixed_append_iff (C := fun bytes => [0x99] <+: bytes ∧ 2 ≤ bytes.length) fits
      (within (by decide))
  case LongTNT =>
    exact fixed_append_iff (C := fun bytes => [0x02, 0xa3] <+: bytes ∧ 8 ≤ bytes.length) fits
      (within (by decide))
  case ShortTNT =>
    cases bytes with
    | nil =>
      cases Nat.le_zero.mp fits
      exact iff_of_false (fun framed => (frame_pos framed).ne rfl) (by simp [frame])
    | cons h rest => rfl
  case CYC =>
    simp only [frame, Option.map_eq_some', Prod.mk.injEq]
    exact exists_congr fun m => and_congr_left fun same => same.2 ▸ cycFrame_append_iff fits
  all_goals exact snapshot_congr fun _ => ipFrame_append_iff fits

end Append

theorem frame_append_of_none {kind other : PacketKind} {prevTip : UInt64} {bytes : List UInt8}
    {pkt : Packet} {n : Nat} (framed : frame kind prevTip bytes = some (pkt, n))
    (fails : frame other prevTip bytes = none) (c : List UInt8) :
    frame other prevTip (bytes ++ c) = none := by
  cases longer : frame other prevTip (bytes ++ c) with
  | none => rfl
  | some result =>
    obtain ⟨pkt', n'⟩ := result
    have fits := (frame_length framed).1
    obtain rfl := frame_length_agree longer ((frame_append_iff fits).mpr framed)
    rw [(frame_append_iff fits).mp longer] at fails
    cases fails

theorem firstFrame_append {prevTip : UInt64} {bytes : List UInt8} {kinds : List PacketKind}
    {kind : PacketKind} {pkt : Packet} {n : Nat}
    (found : firstFrame prevTip bytes kinds = some (kind, pkt, n)) (c : List UInt8) :
    firstFrame prevTip (bytes ++ c) kinds = some (kind, pkt, n) := by
  have framed := (firstFrame_spec found).2
  induction kinds with
  | nil => cases found
  | cons first kinds ih =>
    simp only [firstFrame] at found ⊢
    cases first_framed : frame first prevTip bytes with
    | some result =>
      rw [first_framed] at found
      cases found
      rw [(frame_append_iff (frame_length framed).1).mpr framed]
    | none =>
      rw [first_framed] at found
      rw [frame_append_of_none framed first_framed c]
      exact ih found

namespace PacketParser

theorem pull_append {p q : PacketParser} {pkt : Packet}
    (pulled : p.pull = .ok (some (.ok pkt), q)) (c : List UInt8) :
    ({ p with bytes := p.bytes ++ c } : PacketParser).pull =
      .ok (some (.ok pkt), { q with bytes := q.bytes ++ c }) := by
  obtain ⟨kind, n, tip, nonempty, found, ip, rfl⟩ := pull_ok pulled
  have fits := (frame_length (firstFrame_spec found).2).1
  simp [pull, List.append_ne_nil_of_left_ne_nil nonempty, firstFrame_append found c, ip, Except.map,
    List.drop_append_of_le_length fits]

theorem pulls_append {n : Nat} {p r : PacketParser} {pkts : List Packet}
    (run : p.pulls n = .ok (pkts.map fun pkt => some (.ok pkt), r)) (c : List UInt8) :
    ({ p with bytes := p.bytes ++ c } : PacketParser).pulls n =
      .ok (pkts.map fun pkt => some (.ok pkt), { r with bytes := r.bytes ++ c }) := by
  induction n generalizing p pkts with
  | zero =>
    obtain ⟨items, rfl⟩ := Prod.mk.inj (Except.ok.inj run)
    cases pkts with
    | nil => rfl
    | cons => cases items
  | succ n ih =>
    obtain ⟨item, q, rest, pulled, rest_run, items⟩ := pulls_succ_eq_ok.mp run
    cases pkts with
    | nil => cases items
    | cons pkt pkts =>
      simp only [List.map_cons, List.cons.injEq] at items
      obtain ⟨rfl, rfl⟩ := items
      exact pulls_succ_eq_ok.mpr ⟨_, _, _, pull_append pulled c, ih rest_run, rfl⟩

/-- Truncating a trace never changes what was decoded: if the first `k` pulls of a new parser
over `b` yield `Ok` packets, the first `k` pulls over `b ++ c` yield the same packets, and leave
the same bytes of `b` unread, followed by `c`. -/
theorem truncated_trace_decodes_prefix (b c : List UInt8) (pkts : List Packet) (r : PacketParser)
    (run : (new b).pulls pkts.length = .ok (pkts.map fun pkt => some (.ok pkt), r)) :
    (new (b ++ c)).pulls pkts.length =
      .ok (pkts.map fun pkt => some (.ok pkt), { r with bytes := r.bytes ++ c }) :=
  pulls_append run c

theorem tip_between_psbs_decodes_prefix :
    let pkts : List Packet := [.PSB, .PSBEND, .TIP ⟨⟨6⟩, .Ip64 0x1111111111111111⟩ none, .PSB]
    let r : PacketParser := ⟨[0x02], .PSBPlus, 0x1111111111111111⟩
    (new (tipBetweenPsbs ++ [0x02])).pulls pkts.length =
        .ok (pkts.map fun pkt => some (.ok pkt), r) ∧
      (new (tipBetweenPsbs ++ [0x02] ++ [0x23])).pulls pkts.length =
        .ok (pkts.map fun pkt => some (.ok pkt), { r with bytes := r.bytes ++ [0x23] }) := by
  intro pkts r
  have run : (new (tipBetweenPsbs ++ [0x02])).pulls pkts.length =
      .ok (pkts.map fun pkt => some (.ok pkt), r) := by
    simp only [pkts, r, List.length_cons, List.length_nil, pulls, next_eq_pull]
    decide
  exact ⟨run, truncated_trace_decodes_prefix _ _ _ _ run⟩

end PacketParser

end YkptParser

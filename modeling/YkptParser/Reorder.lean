import YkptParser.RoundTrip

/-! The order of `valid_packets`. Its comment says the parser tries the kinds of a state in the
order of the list, that the order is a guess for speed, and that it is to be benchmarked and
optimised. Reordering is safe exactly when ShortTNT stays ahead of PAD: on bytes that do not start
with PAD's byte 0 at most one kind's framing reads them (`frame_unique`), and on bytes that do only
ShortTNT's and PAD's do, so the first kind of the list to read the bytes depends on the order only
through the relative order of those two (`readsPadByte` marks them). The loop of `parse_state`
reads the list only through that first kind, so a reordering that keeps it leaves `parse_state`
as it is; `padBeforeShortTnt`, which tries PAD first, does not. -/

namespace YkptParser

def readsPadByte : PacketKind → Bool
  | .ShortTNT | .PAD => true
  | _ => false

theorem frame_pad_byte_isSome (kind : PacketKind) (prevTip : UInt64) (rest : List UInt8) :
    (frame kind prevTip (0x00 :: rest)).isSome = readsPadByte kind := by
  cases kind <;> simp [frame, snapshot, ipFrame, cycFrame, readsPadByte, PSBPacket.magic]

theorem frame_pad_byte_eq_none {kind : PacketKind} (other : readsPadByte kind = false)
    (prevTip : UInt64) (rest : List UInt8) : frame kind prevTip (0x00 :: rest) = none := by
  simpa [other] using frame_pad_byte_isSome kind prevTip rest

theorem frame_unique {kind kind' : PacketKind} {prevTip : UInt64} {bytes : List UInt8}
    {pkt pkt' : Packet} {n n' : Nat} (framed : frame kind prevTip bytes = some (pkt, n))
    (framed' : frame kind' prevTip bytes = some (pkt', n')) (notPad : bytes.head? ≠ some 0x00) :
    kind = kind' := by
  obtain ⟨h, rest, rfl, header⟩ := frame_header framed
  obtain ⟨_, _, same, header'⟩ := frame_header framed'
  cases same
  have nonzero : h.toNat ≠ 0 := fun zero => notPad (by rw [show h = 0 from UInt8.toNat.inj zero]; rfl)
  rcases header_overlap header header' with same | ⟨-, rfl⟩ | ⟨rfl, -⟩
  · exact same
  · exact absurd header' nonzero
  · exact absurd header nonzero

theorem firstFrame_filter {prevTip : UInt64} {bytes : List UInt8} (keep : PacketKind → Bool)
    {kinds : List PacketKind}
    (fails : ∀ kind ∈ kinds, keep kind = false → frame kind prevTip bytes = none) :
    firstFrame prevTip bytes (kinds.filter keep) = firstFrame prevTip bytes kinds := by
  induction kinds with
  | nil => rfl
  | cons kind kinds ih =>
    have rest := ih fun other mem => fails other (List.mem_cons_of_mem _ mem)
    cases kept : keep kind
    · rw [List.filter_cons_of_neg (by simp [kept]), rest, firstFrame,
        fails kind (List.mem_cons_self _ _) kept]
    · rw [List.filter_cons_of_pos kept]
      simp only [firstFrame, rest]

theorem firstFrame_perm {prevTip : UInt64} {bytes : List UInt8} {kinds kinds' : List PacketKind}
    (perm : kinds.Perm kinds')
    (padOrder : kinds.filter readsPadByte = kinds'.filter readsPadByte) :
    firstFrame prevTip bytes kinds = firstFrame prevTip bytes kinds' := by
  by_cases padByte : bytes.head? = some 0x00
  · obtain ⟨rest, rfl⟩ := List.head?_eq_some_iff.mp padByte
    have fails (kinds : List PacketKind) :
        ∀ kind ∈ kinds, readsPadByte kind = false → frame kind prevTip (0x00 :: rest) = none :=
      fun _ _ other => frame_pad_byte_eq_none other prevTip rest
    rw [← firstFrame_filter _ (fails kinds), ← firstFrame_filter _ (fails kinds'), padOrder]
  · cases found : firstFrame prevTip bytes kinds with
    | none =>
      exact (firstFrame_eq_none_iff.mpr fun kind mem =>
        firstFrame_eq_none_iff.mp found kind (perm.mem_iff.mpr mem)).symm
    | some result =>
      obtain ⟨kind, pkt, n⟩ := result
      obtain ⟨mem, framed⟩ := firstFrame_spec found
      refine (firstFrame_of_only (perm.mem_iff.mp mem) framed fun other _ different => ?_).symm
      cases framed' : frame other prevTip bytes with
      | none => rfl
      | some result => exact absurd (frame_unique framed' framed padByte) different

namespace PacketParser

theorem parseStateFrom_perm (p : PacketParser) {kinds : List PacketKind}
    (perm : kinds.Perm p.state.validPackets)
    (padOrder : kinds.filter readsPadByte = p.state.validPackets.filter readsPadByte) :
    p.parseStateFrom kinds = p.parseState := by
  rw [parseState, parseStateFrom_eq, parseStateFrom_eq, firstFrame_perm perm padOrder]

/-- Reordering the kinds `valid_packets` lists for each state, as its comment invites, leaves
`parse_state`, the only reader of the list, unchanged on every parser exactly when ShortTNT stays
ahead of PAD in `Normal`; the two codecs both read PAD's byte 0, and whichever comes first takes
it. -/
theorem reordered_valid_packets_iff (order : PacketParserState → List PacketKind)
    (perm : ∀ state, (order state).Perm state.validPackets) :
    (∀ p : PacketParser, p.parseStateFrom (order p.state) = p.parseState) ↔
      List.Sublist [.ShortTNT, .PAD] (order .Normal) := by
  have padKinds (state : PacketParserState) :
      ((order state).filter readsPadByte).Perm (state.validPackets.filter readsPadByte) :=
    (perm state).filter _
  constructor
  · -- On PAD's byte in `Normal` the reordered loop still reads a ShortTNT, so ShortTNT is the
    -- first of the two kinds that read that byte.
    intro same
    have read := same ⟨[0x00], .Normal, 0⟩
    simp only [parseState, parseStateFrom_eq] at read
    rw [← firstFrame_filter readsPadByte fun _ _ other => frame_pad_byte_eq_none other 0 []] at read
    cases first : (order .Normal).filter readsPadByte with
    | nil => cases (padKinds .Normal).length_eq.symm.trans (congrArg List.length first)
    | cons kind rest =>
      have reads : readsPadByte kind = true := List.of_mem_filter (first ▸ List.mem_cons_self _ _)
      obtain ⟨⟨pkt, n⟩, framed⟩ :=
        Option.isSome_iff_exists.mp ((frame_pad_byte_isSome kind 0 []).trans reads)
      have normal : firstFrame 0 [0x00] PacketParserState.Normal.validPackets =
          some (.ShortTNT, .ShortTNT, 1) := rfl
      rw [normal, first] at read
      simp only [firstFrame, framed, Prod.mk.injEq, Except.ok.injEq] at read
      obtain rfl : kind = .ShortTNT := (frame_kind framed).symm.trans (congrArg Packet.kind read.1)
      have tail : rest.Perm [.PAD] := (first ▸ padKinds .Normal).cons_inv
      rw [List.perm_singleton.mp tail] at first
      exact first ▸ List.filter_sublist _
  · intro tntFirst p
    refine parseStateFrom_perm p (perm p.state) ?_
    cases state : p.state
    case Normal =>
      refine ((tntFirst.filter readsPadByte).eq_of_length ?_).symm
      rw [(padKinds .Normal).length_eq]
      rfl
    all_goals exact List.perm_nil.mp (padKinds _)

end PacketParser

def padBeforeShortTnt : PacketParserState → List PacketKind
  | .Normal => [.PAD, .ShortTNT, .FUP, .TIP, .CYC, .LongTNT, .PSB, .MODE, .TIPPGE, .TIPPGD]
  | state => state.validPackets

theorem pad_before_shorttnt_reordered_valid_packets :
    (∀ state, (padBeforeShortTnt state).Perm state.validPackets) ∧
      ((∀ p : PacketParser, p.parseStateFrom (padBeforeShortTnt p.state) = p.parseState) ↔
        List.Sublist [.ShortTNT, .PAD] (padBeforeShortTnt .Normal)) :=
  have perm : ∀ state, (padBeforeShortTnt state).Perm state.validPackets := by
    intro state
    cases state <;> decide
  ⟨perm, PacketParser.reordered_valid_packets_iff padBeforeShortTnt perm⟩

end YkptParser

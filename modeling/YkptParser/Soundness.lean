import YkptParser.RoundTrip

/-! What the parser accepts is well formed, in the sense of `PTPacket`: framed as the format's
table frames each kind, with the payloads of LongTNT, MODE and CBR left uninterpreted. Each framing that builds a packet whose target IP
does not panic has read the encoding of a well-formed `PTPacket` of its kind, and the packet it
built is that packet (`frame_sound`); the one exception is the ShortTNT codec on PAD's byte 0.
So every run has consumed, packet by packet, the encodings of the packets it yielded: the
converse of the round trip of `RoundTrip`. -/

namespace YkptParser

/-- The bytes `seg` read for the packet `pkt` are the encoding of a well-formed packet that `pkt`
decodes, or PAD's byte 0 read as a ShortTNT. Well-formed is meant as for `PTPacket`: the framing
of the format's table, in which a ShortTNT needs a stop bit above a branch bit while the payloads
of LongTNT, MODE and CBR are any bytes of their width. -/
def Encodes (seg : List UInt8) (pkt : Packet) : Prop :=
  (∃ spec : PTPacket, seg = spec.encode ∧ spec.Decodes pkt) ∨ (seg = [0x00] ∧ pkt = .ShortTNT)

theorem stopLength_eq_some {stop : UInt8 → Bool} {bytes : List UInt8} {n : Nat}
    (found : stopLength stop bytes = some n) :
    ∃ more last, bytes.take n = more ++ [last] ∧ (∀ e ∈ more, stop e = false) ∧ stop last = true := by
  induction bytes generalizing n with
  | nil => cases found
  | cons e es ih =>
    simp only [stopLength] at found
    split at found
    · cases found
      exact ⟨[], e, rfl, by simp, ‹_›⟩
    · obtain ⟨m, rest, rfl⟩ := Option.map_eq_some'.mp found
      obtain ⟨more, last, taken, running, stops⟩ := ih rest
      refine ⟨e :: more, last, by rw [List.take_succ_cons, taken]; rfl, ?_, stops⟩
      simpa [‹¬stop e = true›] using running

theorem extendedBytes_of_stopLength {bytes : List UInt8} {n : Nat}
    (found : stopLength CYCPacket.extendedUntil bytes = some n) : ExtendedBytes (bytes.take n) := by
  rw [extendedUntil_eq] at found
  obtain ⟨more, last, taken, running, stops⟩ := stopLength_eq_some found
  refine ⟨more, last, taken, fun e mem => ?_, by simpa using stops⟩
  have odd := running e mem
  simp only [decide_eq_false_iff_not] at odd
  omega

theorem payloadWidth_of_ipPayload {k m : Nat} (width : ipPayload k = some m)
    (implemented : k ≠ 0b100) : payloadWidth k = some m := by
  rcases k with _ | _ | _ | _ | _ | _ | _ | _ | k
  all_goals simp only [ipPayload, reduceCtorEq] at width
  all_goals first | omega | exact width

theorem ipFrame_sound {kind : PacketKind} {opcode : UInt8} {bytes : List UInt8} {ip : IPPacket}
    {n : Nat} {cached : Option UInt64} (isIp : kind ∈ [.TIP, .TIPPGE, .TIPPGD, .FUP])
    (same : opcode.toNat = ipOpcode kind) (found : ipFrame opcode bytes = some (ip, n))
    (noPanic : ∃ tip, ip.targetIp.decompress ip.ipBytes cached = .ok tip) :
    ∃ spec : PTPacket, spec.kind = kind ∧ bytes.take n = spec.encode ∧ spec.ipPacket = some ip := by
  obtain ⟨h, rest, m, rfl, header, width, fits, rfl, rfl⟩ := ipFrame_eq_some found
  have four : h.toNat / 32 ≠ 0b100 := by
    intro four
    obtain ⟨_, decompressed⟩ := noPanic
    rw [four] at decompressed
    cases decompressed
  have taken : (rest.take m).length = m := List.length_take_of_le fits
  refine ⟨.ip kind (h.toNat / 32) (rest.take m)
    ⟨isIp, payloadWidth_of_ipPayload (by rw [taken]; exact width) four⟩, rfl, ?_, rfl⟩
  rw [Nat.add_comm, List.take_succ_cons]
  congr 1
  rw [← same, ← header, Nat.div_add_mod', byte_ofNat_toNat]

theorem snapshot_sound (kind : PacketKind) {discr : IPPacket → Option UInt64 → Packet}
    {opcode : UInt8} {prevTip : UInt64} {bytes : List UInt8} {pkt : Packet} {n : Nat}
    (framed : snapshot discr prevTip (ipFrame opcode bytes) = some (pkt, n))
    (isIp : kind ∈ [.TIP, .TIPPGE, .TIPPGD, .FUP]) (same : opcode.toNat = ipOpcode kind)
    (built : ∀ ip cached,
      (discr ip cached).kind = kind ∧ (discr ip cached).ipFields = some (ip, cached))
    (noPanic : ∃ tip, pkt.targetIp = .ok tip) : Encodes (bytes.take n) pkt := by
  obtain ⟨ip, found, rfl⟩ := snapshot_eq_some framed
  have sound (cached : Option UInt64) (noPanic : ∃ tip, (discr ip cached).targetIp = .ok tip) :
      Encodes (bytes.take n) (discr ip cached) := by
    obtain ⟨kindEq, fields⟩ := built ip cached
    rw [Packet.targetIp_of_ipFields fields] at noPanic
    obtain ⟨spec, specKind, encodes, ipPacket⟩ := ipFrame_sound isIp same found noPanic
    exact .inl ⟨spec, encodes, kindEq.trans specKind.symm, by rw [fields, ipPacket]; rfl⟩
  by_cases needs : ip.ipBytes.needsPrevTip <;>
    simp only [needs, if_true, if_false, Bool.false_eq_true] at noPanic ⊢ <;>
    exact sound _ noPanic

theorem frame_sound {kind : PacketKind} {prevTip : UInt64} {bytes : List UInt8} {pkt : Packet}
    {n : Nat} (framed : frame kind prevTip bytes = some (pkt, n))
    (noPanic : ∃ tip, pkt.targetIp = .ok tip) : Encodes (bytes.take n) pkt := by
  cases kind
  case TIP => exact snapshot_sound .TIP framed (by decide) rfl (fun _ _ => ⟨rfl, rfl⟩) noPanic
  case TIPPGE =>
    exact snapshot_sound .TIPPGE framed (by decide) rfl (fun _ _ => ⟨rfl, rfl⟩) noPanic
  case TIPPGD =>
    exact snapshot_sound .TIPPGD framed (by decide) rfl (fun _ _ => ⟨rfl, rfl⟩) noPanic
  case FUP => exact snapshot_sound .FUP framed (by decide) rfl (fun _ _ => ⟨rfl, rfl⟩) noPanic
  case CYC =>
    obtain ⟨m, found, same⟩ := Option.map_eq_some'.mp framed
    cases same
    match bytes, found with
    | h :: rest, found =>
      simp only [cycFrame] at found
      split at found
      · rename_i header
        split at found
        · obtain ⟨j, stops, rfl⟩ := Option.map_eq_some'.mp found
          refine .inl ⟨.cyc h (rest.take j) ⟨header, ?_⟩, ?_, rfl, rfl⟩
          · rw [if_pos ‹_›]
            exact extendedBytes_of_stopLength stops
          · rw [Nat.add_comm, List.take_succ_cons]
            rfl
        · cases found
          exact .inl ⟨.cyc h [] ⟨header, by rw [if_neg ‹_›]⟩, rfl, rfl, rfl⟩
      · cases found
  case ShortTNT =>
    match bytes, framed with
    | h :: rest, framed =>
      simp only [frame] at framed
      split at framed <;> cases framed
      rename_i tnt
      by_cases zero : h.toNat = 0
      · obtain rfl : h = 0 := UInt8.toNat.inj zero
        exact .inr ⟨rfl, rfl⟩
      · exact .inl ⟨.shortTnt h ⟨tnt.2, by omega⟩, rfl, rfl, rfl⟩
  all_goals
    simp only [frame] at framed
    split at framed <;> cases framed
    rename_i pre
  case PSB =>
    obtain ⟨t, rfl⟩ := pre
    exact .inl ⟨.psb, rfl, rfl, rfl⟩
  case PSBEND =>
    obtain ⟨t, rfl⟩ := pre
    exact .inl ⟨.psbend, rfl, rfl, rfl⟩
  case PAD =>
    obtain ⟨t, rfl⟩ := pre
    exact .inl ⟨.pad, rfl, rfl, rfl⟩
  case CBR =>
    obtain ⟨⟨t, rfl⟩, long⟩ := pre
    match t, long with
    | a :: b :: t, _ => exact .inl ⟨.cbr a b, rfl, rfl, rfl⟩
  case MODE =>
    obtain ⟨⟨t, rfl⟩, long⟩ := pre
    match t, long with
    | a :: t, _ => exact .inl ⟨.mode a, rfl, rfl, rfl⟩
  case LongTNT =>
    obtain ⟨⟨t, rfl⟩, long⟩ := pre
    have six : (t.take 6).length = 6 := List.length_take_of_le (by simp at long; omega)
    exact .inl ⟨.longTnt (t.take 6) six, rfl, rfl, rfl⟩

namespace PacketParser

/-- Every run reads only encodings of packets framed as the format's table frames them (`Encodes`;
the payloads of LongTNT, MODE and CBR are not checked by the code nor by the format): the bytes
it consumed are, packet by packet, an encoding of each packet it yielded, the one exception being
a ShortTNT read from PAD's byte 0. -/
theorem pulls_read_only_encodings (p : PacketParser) (n : Nat)
    (items : List (Option (Except HWTracerError Packet))) (r : PacketParser)
    (run : p.pulls n = .ok (items, r)) :
    ∃ segments : List (List UInt8), p.bytes = segments.flatten ++ r.bytes ∧
      List.Forall₂ (fun pkt seg => Encodes seg pkt) (okPackets items) segments := by
  refine pulls_ok_induction
    (motive := fun p pkts r => ∃ segments : List (List UInt8),
      p.bytes = segments.flatten ++ r.bytes ∧ List.Forall₂ (fun pkt seg => Encodes seg pkt) pkts segments)
    (fun _ => ⟨[], rfl, .nil⟩) (fun {p _ _ _ _} pulled ih => ?_) run
  obtain ⟨_, n, tip, -, found, ip, rfl⟩ := pull_ok pulled
  obtain ⟨segments, split, encodes⟩ := ih
  refine ⟨p.bytes.take n :: segments, ?_, .cons (frame_sound (firstFrame_spec found).2 ⟨tip, ip⟩) encodes⟩
  rw [List.flatten_cons, List.append_assoc, ← split, List.take_append_drop]

theorem psb_psbend_pad_read_only_encodings :
    let p := new ([PTPacket.psb, .psbend, .pad].map PTPacket.encode).flatten
    let r : PacketParser := ⟨[], .Normal, 0⟩
    p.pulls 3 = .ok ([some (.ok .PSB), some (.ok .PSBEND), some (.ok .ShortTNT)], r) ∧
      ∃ segments : List (List UInt8), p.bytes = segments.flatten ++ r.bytes ∧
        List.Forall₂ (fun pkt seg => Encodes seg pkt)
          (okPackets [some (.ok .PSB), some (.ok .PSBEND), some (.ok .ShortTNT)]) segments :=
  have run : (new ([PTPacket.psb, .psbend, .pad].map PTPacket.encode).flatten).pulls 3 =
      .ok ([some (.ok .PSB), some (.ok .PSBEND), some (.ok .ShortTNT)], ⟨[], .Normal, 0⟩) := by
    simp only [pulls, next_eq_pull]
    decide
  ⟨run, pulls_read_only_encodings _ _ _ _ run⟩

end PacketParser

end YkptParser

import YkptParser.Packets

/-! The packet parser: a state machine over the trace bytes and the iterator the decoder pulls
packets from (`mod.rs`). Methods taking `&mut self` return the updated parser. `readKind` is the
codec `parse_kind` runs for a kind, `parseStateFrom` the loop of `parse_state` over the kinds
still to try, `binary8` the `format!("{:08b}")` of a byte, and `pulls n` the items of `n` calls
of `next`. -/

namespace YkptParser

inductive PacketParserState
  /-- Initial state, waiting for a PSB packet. -/
  | Init
  /-- The "normal" decoding state. -/
  | Normal
  /-- We are decoding a PSB+ sequence. -/
  | PSBPlus
  deriving DecidableEq, Repr

namespace PacketParserState

/-- The kinds of packet that are valid for the state, in the order the parser tries them. -/
def validPackets : PacketParserState → List PacketKind
  | Init => [.PSB]
  | Normal => [.ShortTNT, .PAD, .FUP, .TIP, .CYC, .LongTNT, .PSB, .MODE, .TIPPGE, .TIPPGD]
  | PSBPlus => [.CBR, .PSBEND]

def transition (self : PacketParserState) (pktKind : PacketKind) : PacketParserState :=
  match self, pktKind with
  | Init, .PSB => PSBPlus
  | Normal, .PSB => PSBPlus
  | PSBPlus, .PSBEND => Normal
  | state, _ => state

def debugStr : PacketParserState → String
  | Init => "Init"
  | Normal => "Normal"
  | PSBPlus => "PSBPlus"

end PacketParserState

inductive HWTracerError
  | TraceParseError (msg : String)
  deriving DecidableEq, Repr

structure PacketParser where
  /-- The raw bytes of the PT trace not yet parsed. -/
  bytes : List UInt8
  state : PacketParserState
  /-- The most recent Target IP value seen, used to decompress later ones. -/
  prevTip : UInt64
  deriving DecidableEq, Repr

/-- Attempt to read the packet of type `$packet` using deku. On success wrap the packet up into the
corresponding discriminant of `Packet`. -/
def readToPacket (read : BitSlice → Option BitSlice) (discr : Packet) (bits : BitSlice) :
    Option (BitSlice × Packet) :=
  (read bits).map (·, discr)

/-- Same as `read_to_packet!`, but with extra logic for dealing with packets which encode a TIP. -/
def readToPacketTip (read : BitSlice → Option (BitSlice × IPPacket))
    (discr : IPPacket → Option UInt64 → Packet) (bits : BitSlice) (prevTip : UInt64) :
    Option (BitSlice × Packet) :=
  (read bits).map fun (r, p) =>
    (r, if p.ipBytes.needsPrevTip then discr p (some prevTip) else discr p none)

def binary8 (b : UInt8) : String :=
  let digits := Nat.toDigits 2 b.toNat
  String.mk (List.replicate (8 - digits.length) '0' ++ digits)

namespace PacketParser

def new (bytes : List UInt8) : PacketParser := ⟨bytes, .Init, 0⟩

def readKind (kind : PacketKind) (bits : BitSlice) (prevTip : UInt64) :
    Option (BitSlice × Packet) :=
  match kind with
  | .PSB => readToPacket PSBPacket.read .PSB bits
  | .CBR => readToPacket CBRPacket.read .CBR bits
  | .PSBEND => readToPacket PSBENDPacket.read .PSBEND bits
  | .PAD => readToPacket PADPacket.read .PAD bits
  | .MODE => readToPacket MODEPacket.read .MODE bits
  | .TIPPGE => readToPacketTip TIPPGEPacket.read .TIPPGE bits prevTip
  | .TIPPGD => readToPacketTip TIPPGDPacket.read .TIPPGD bits prevTip
  | .ShortTNT => readToPacket ShortTNTPacket.read .ShortTNT bits
  | .LongTNT => readToPacket LongTNTPacket.read .LongTNT bits
  | .TIP => readToPacketTip TIPPacket.read .TIP bits prevTip
  | .FUP => readToPacketTip FUPPacket.read .FUP bits prevTip
  | .CYC => readToPacket CYCPacket.read .CYC bits

/-- Attempt to parse a packet of the specified `PacketKind`. -/
def parseKind (self : PacketParser) (kind : PacketKind) : Option Packet × PacketParser :=
  let bits := BitSlice.fromSlice self.bytes
  match readKind kind bits self.prevTip with
  | some (remain, pkt) => (some pkt, { self with bytes := remain.asRawSlice })
  | none => (none, self)

/-- A binary formatted peek at the next `nbytes` bytes, separated by `sep`. -/
def byteStreamStr (self : PacketParser) (nbytes : Nat) (sep : String) : String :=
  let nbytes := min nbytes self.bytes.length
  let vals := (self.bytes.take nbytes).map binary8
  let vals := if self.bytes.length > nbytes then vals ++ ["..."] else vals
  sep.intercalate vals

def traceParseError (self : PacketParser) : HWTracerError :=
  .TraceParseError ("In state " ++ self.state.debugStr ++ ", failed to parse packet: " ++
    self.byteStreamStr 8 ", ")

def parseStateFrom (self : PacketParser) : List PacketKind → Except HWTracerError Packet × PacketParser
  | [] => (.error self.traceParseError, self)
  | kind :: kinds =>
    match self.parseKind kind with
    | (some pkt, after) =>
      (.ok pkt, if kind = .PSBEND then { after with state := .Normal } else after)
    | (none, after) => after.parseStateFrom kinds

/-- Attempt to parse a packet for the current parser state. -/
def parseState (self : PacketParser) : Except HWTracerError Packet × PacketParser :=
  self.parseStateFrom self.state.validPackets

def parsePacket (self : PacketParser) :
    Except Panic (Except HWTracerError Packet × PacketParser) :=
  match self.parseState with
  | (.error e, self) => pure (.error e, self)
  | (.ok pkt, self) => do
    let tip ← pkt.targetIp
    let self := match tip with
      | some tip => { self with prevTip := tip }
      | none => self
    pure (.ok pkt, { self with state := self.state.transition pkt.kind })

def next (self : PacketParser) :
    Except Panic (Option (Except HWTracerError Packet) × PacketParser) :=
  if !self.bytes.isEmpty then do
    let (r, self) ← self.parsePacket
    pure (some r, self)
  else pure (none, self)

def pulls : Nat → PacketParser →
    Except Panic (List (Option (Except HWTracerError Packet)) × PacketParser)
  | 0, self => pure ([], self)
  | n + 1, self => do
    let (item, self) ← self.next
    let (items, self) ← pulls n self
    pure (item :: items, self)

end PacketParser

end YkptParser

import YkptParser.Bits

/-! Intel PT packets, their deku codecs and target IP decompression (`packets.rs`). A Rust panic
is an `Except Panic` error naming the macro that raised it, and `debug_assert!` runs as in a
build with debug assertions. `TargetIP::read` takes the variant whose `id` matches the `IPBytes`
deku passes it as context. The four IP packets differ only in the opcode that the assertion on
their 5-bit `magic` field expects, so they share one reader and one record of the fields they
keep (`magic` is `temp`). -/

namespace YkptParser

inductive Panic
  | todo
  | unreachable
  | unwrapNone
  | debugAssert
  deriving DecidableEq, Repr

instance decEqExcept {ε α : Type} [DecidableEq ε] [DecidableEq α] : DecidableEq (Except ε α)
  | .ok a, .ok b => decidable_of_iff (a = b) (by simp)
  | .error a, .error b => decidable_of_iff (a = b) (by simp)
  | .ok _, .error _ => isFalse (by simp)
  | .error _, .ok _ => isFalse (by simp)

def unwrap {α : Type} : Option α → Except Panic α
  | some a => .ok a
  | none => .error .unwrapNone

def debugAssert (condition : Bool) : Except Panic Unit :=
  if condition then .ok () else .error .debugAssert

/-- The `IPBytes` field common to all IP packets: the kind of compression of a `TargetIP`. -/
structure IPBytes where
  val : UInt8
  deriving DecidableEq, Repr

namespace IPBytes

def read (s : BitSlice) : Option (BitSlice × IPBytes) := do
  let (s, v) ← readBits 3 s
  pure (s, ⟨UInt8.ofNat v⟩)

def needsPrevTip (self : IPBytes) : Bool :=
  match self.val with
  | 0b001 | 0b010 | 0b100 => true
  | _ => false

end IPBytes

inductive TargetIP
  | OutOfContext
  | Ip16 (v : UInt16)
  | Ip32 (v : UInt32)
  | Ip48 (v : UInt64)
  | Ip64 (v : UInt64)
  deriving DecidableEq, Repr

namespace TargetIP

def read (ipBytesVal : UInt8) (s : BitSlice) : Option (BitSlice × TargetIP) :=
  match ipBytesVal with
  | 0b000 => some (s, OutOfContext)
  | 0b001 => (readLE 2 s).map fun (s, v) => (s, Ip16 (UInt16.ofNat v))
  | 0b010 => (readLE 4 s).map fun (s, v) => (s, Ip32 (UInt32.ofNat v))
  | 0b011 | 0b100 => (readLE 6 s).map fun (s, v) => (s, Ip48 (UInt64.ofNat v))
  | 0b110 => (readLE 8 s).map fun (s, v) => (s, Ip64 (UInt64.ofNat v))
  | _ => none

/-- Decompress a `TargetIP` and `IPBytes` pair into an instruction pointer address; `none` if
the target IP was "out of context". -/
def decompress (self : TargetIP) (ipBytes : IPBytes) (prevTip : Option UInt64) :
    Except Panic (Option UInt64) :=
  match ipBytes.val with
  | 0b000 => do
    debugAssert (self matches OutOfContext)
    pure none
  | 0b001 =>
    match self with
    | Ip16 v => do
      let prev ← unwrap prevTip
      pure (some (prev &&& 0xffffffffffff0000 ||| v.toUInt64))
    | _ => throw .unreachable
  | 0b010 =>
    match self with
    | Ip32 v => do
      let prev ← unwrap prevTip
      pure (some (prev &&& 0xffffffff00000000 ||| v.toUInt64))
    | _ => throw .unreachable
  | 0b011 =>
    match self with
    | Ip48 v => do
      debugAssert (v >>> 48 == 0)
      let b47 := (v &&& ((1 : UInt64) <<< 47)) >>> 47
      let all := (~~~b47 &&& 0x1) - 1
      pure (some (all &&& 0xffff000000000000 ||| v))
    | _ => throw .unreachable
  | 0b100 => throw .todo
  | 0b101 => throw .unreachable
  | 0b110 =>
    match self with
    | Ip64 v => pure (some v)
    | _ => throw .unreachable
  | 0b111 => throw .unreachable
  | _ => throw .todo

end TargetIP

structure IPPacket where
  ipBytes : IPBytes
  targetIp : TargetIP
  deriving DecidableEq, Repr

def readIPPacket (opcode : UInt8) (s : BitSlice) : Option (BitSlice × IPPacket) := do
  let (s, ipBytes) ← IPBytes.read s
  let (s, magic) ← readBits 5 s
  if UInt8.ofNat magic &&& 0x1f = opcode then
    let (s, targetIp) ← TargetIP.read ipBytes.val s
    pure (s, ⟨ipBytes, targetIp⟩)
  else none

def TIPPGEPacket.read : BitSlice → Option (BitSlice × IPPacket) := readIPPacket 0x11

def TIPPacket.read : BitSlice → Option (BitSlice × IPPacket) := readIPPacket 0x0d

def TIPPGDPacket.read : BitSlice → Option (BitSlice × IPPacket) := readIPPacket 0x1

def FUPPacket.read : BitSlice → Option (BitSlice × IPPacket) := readIPPacket 0b11101

/-! The other packets keep no field, so their `read` returns only the remaining bits. -/

def PSBPacket.magic : List UInt8 :=
  [0x02, 0x82, 0x02, 0x82, 0x02, 0x82, 0x02, 0x82, 0x02, 0x82, 0x02, 0x82, 0x02, 0x82, 0x02, 0x82]

def PSBPacket.read (s : BitSlice) : Option BitSlice := readMagic PSBPacket.magic s

def CBRPacket.read (s : BitSlice) : Option BitSlice := do
  let s ← readMagic [0x02, 0x03] s
  let (s, _unused) ← readLE 2 s
  pure s

def PSBENDPacket.read (s : BitSlice) : Option BitSlice := readMagic [0x02, 0x23] s

def PADPacket.read (s : BitSlice) : Option BitSlice := readMagic [0x00] s

def MODEPacket.read (s : BitSlice) : Option BitSlice := do
  let s ← readMagic [0x99] s
  let (s, _unused) ← readU8 s
  pure s

/-- Branch bits and a stop bit, then a clear bit; a stop bit in place of the first branch is
rejected. -/
def ShortTNTPacket.read (s : BitSlice) : Option BitSlice := do
  let (s, branches) ← readBits 7 s
  if UInt8.ofNat branches != 0x1 then
    let (s, magic) ← readBool s
    if magic == false then pure s else none
  else none

def LongTNTPacket.read (s : BitSlice) : Option BitSlice := do
  let s ← readMagic [0x02, 0xa3] s
  let (s, _branches) ← readLE 6 s
  pure s

def CYCPacket.extendedUntil (e : UInt8) : Bool := e &&& 0x01 != 0x01

/-- A CYC packet is variable length and has 0 or more "extended" bytes. -/
def CYCPacket.read (s : BitSlice) : Option BitSlice := do
  let (s, _unused) ← readBits 5 s
  let (s, exp) ← readBool s
  let (s, magic) ← readBits 2 s
  if UInt8.ofNat magic &&& 0x3 = 0b11 then
    if exp == true then
      let (s, _extended) ← readUntil CYCPacket.extendedUntil s.raw.length s
      pure s
    else pure s
  else none

inductive PacketKind
  | PSB
  | CBR
  | PSBEND
  | PAD
  | MODE
  | TIPPGE
  | TIPPGD
  | ShortTNT
  | LongTNT
  | TIP
  | FUP
  | CYC
  deriving DecidableEq, Repr

/-- The top-level representation of an Intel Processor Trace packet. The IP packets cache the
previous TIP value at the time the packet was created, when they need it. -/
inductive Packet
  | PSB
  | CBR
  | PSBEND
  | PAD
  | MODE
  | TIPPGE (p : IPPacket) (prevTip : Option UInt64)
  | TIPPGD (p : IPPacket) (prevTip : Option UInt64)
  | ShortTNT
  | LongTNT
  | TIP (p : IPPacket) (prevTip : Option UInt64)
  | FUP (p : IPPacket) (prevTip : Option UInt64)
  | CYC
  deriving DecidableEq, Repr

namespace Packet

/-- If the packet contains a TIP update, the IP value. -/
def targetIp : Packet → Except Panic (Option UInt64)
  | TIPPGE p prevTip | TIPPGD p prevTip | TIP p prevTip | FUP p prevTip =>
    p.targetIp.decompress p.ipBytes prevTip
  | _ => pure none

def kind : Packet → PacketKind
  | PSB => .PSB
  | CBR => .CBR
  | PSBEND => .PSBEND
  | PAD => .PAD
  | MODE => .MODE
  | TIPPGE .. => .TIPPGE
  | TIPPGD .. => .TIPPGD
  | ShortTNT => .ShortTNT
  | LongTNT => .LongTNT
  | TIP .. => .TIP
  | FUP .. => .FUP
  | CYC => .CYC

end Packet

end YkptParser

/-
Receiving binary messages: `Sandesh::ReadBinary`, `ReceiveBinaryMsgOne` and
`ReceiveBinaryMsg` (library/cpp/sandesh.cc).

A generated `Read` makes read calls in an order that depends on what it has
read so far, returns the first negative result and otherwise the sum:
`Next` says which call comes next. `SandeshBaseFactory` gives the `Read`
that goes with a name. What `Process` does with a message has no part in
the results.
-/
import Sandesh.Binary.Cpp
import Sandesh.Lib.Prog

namespace Sandesh.Binary.Cpp

open Lib C

/-- A call whose negative result is returned. -/
def perform {α : Type} (f : Reader Input α) : Prog Input Int (α × Int) :=
  Prog.act fun s =>
    match f s with
    | (none, s) => (.error (-1), s)
    | (some (v, ret), s) =>
        if ret < 0 then (.error ret, s) else (.ok (v, ret), s)

/-- The next call of a generated `Read`, or none when it is done. -/
def Next : Type := List Value → Option Call

/-- One call of a generated `Read`, after these values and with this sum. -/
def readNext (next : Next) (t : List Value × Int) :
    Prog Input Int ((List Value × Int) ⊕ Int) :=
  match next t.1 with
  | none => pure (.inr t.2)
  | some c => do
      let r ← perform c.read
      pure (.inl (t.1 ++ [r.1], i32 (t.2 + r.2)))

/-- The generated `Read`: call after call, until the reader has enough or
one fails. -/
def Read (next : Next) : Prog Input Int Int := Prog.loop (readNext next) ([], 0)

/-- `new TMemoryBuffer(buf, buf_len)` -/
def openBuffer (buf : Bytes) : Prog Input Int Unit :=
  Prog.act fun s => (.ok (), { s with buffer := .ofBytes buf })

/-- `Sandesh::ReadBinary`. -/
def ReadBinary (next : Next) (buf : Bytes) : Prog Input Int Int := do
  openBuffer buf
  let xfer ← Read next
  if xfer < 0 then Prog.throw xfer else pure xfer

/-- `Sandesh::ReceiveBinaryMsgOne`. -/
def ReceiveBinaryMsgOne (factory : Bytes → Option Next) (buf : Bytes) :
    Prog Input Int Int := do
  openBuffer buf
  let (sandesh_name, _) ← perform readSandeshBegin
  match factory sandesh_name with
  | none => Prog.throw (-1)
  | some next =>
      openBuffer buf
      let xfer ← Read next
      if xfer < 0 then Prog.throw xfer else pure xfer

/-- One turn of the loop of `ReceiveBinaryMsg`. -/
def receiveNext (factory : Bytes → Option Next) (buf : Bytes) (xfer : Nat) :
    Prog Input Int (Nat ⊕ Int) :=
  if xfer < buf.length then do
    let ret ← ReceiveBinaryMsgOne factory (buf.drop xfer)
    if ret < 0 then Prog.throw ret else pure (.inl (u32 (xfer + ret)))
  else pure (.inr (i32 xfer))

/-- `Sandesh::ReceiveBinaryMsg`. -/
def ReceiveBinaryMsg (factory : Bytes → Option Next) (buf : Bytes) :
    Prog Input Int Int :=
  Prog.loop (receiveNext factory buf) 0

/-- What the function returns. -/
def result : Except Int Int → Int
  | .ok n => n
  | .error e => e

@[simp] theorem result_ok (n : Int) : result (.ok n) = n := rfl

@[simp] theorem result_error (e : Int) : result (.error e) = e := rfl

end Sandesh.Binary.Cpp

/-
`Sandesh::WriteBinary` (library/cpp/sandesh.cc): a sandesh written by the
binary protocol to a buffer of the caller's.

The generated `Write` makes the protocol's write calls for the sandesh one
after the other, returns the first negative result and otherwise their sum.
A sandesh is the list of these calls.
-/

namespace Sandesh.Binary.Cpp

open Lib C

/-- Linux's number for it. -/
def EINVAL : Int := 22

/-- The generated `Write`, from the sum so far on. -/
def writeFrom (xfer : Int) : List Piece → Buffer → Int × Buffer
  | [], b => (xfer, b)
  | p :: ps, b =>
      match p.write b with
      | (ret, b) => if ret < 0 then (ret, b) else writeFrom (i32 (xfer + ret)) ps b

/-- What `WriteBinary` returns, and leaves in `*buf` and `*error`. -/
structure Written where
  xfer : Int
  buf : Bytes
  error : Int

/-- The buffer after `setWriteBuffer(buf, buf_len)`. -/
def writeBuffer (buf : Bytes) : Buffer where
  buf := buf
  roffset := 0
  woffset := 0
  le := Buffer.start_le
  bound := Buffer.start_bound buf

/-- `Sandesh::WriteBinary`. -/
def WriteBinary (sandesh : List Piece) (buf : Bytes) (error : Int) : Written :=
  match writeFrom 0 sandesh (writeBuffer buf) with
  | (xfer, b) => ⟨xfer, b.buf, if xfer < 0 then EINVAL else error⟩

-- ======================================================== the encoding

namespace Piece

/-- What a string gives to the transport. -/
def ofString (str : Bytes) : List Bytes :=
  let size : BitVec 32 := BitVec.ofNat 32 str.length
  image 4 (swap 4 size.toNat)
    :: if size.toNat > 0 then [str.take size.toNat] else []

/-- A type as bytes. -/
def ofCode (t : TType) : Bytes := image 1 (BitVec.ofNat 8 t.code).toNat

/-- A size as bytes. -/
def ofSize (size : BitVec 32) : Bytes := image 4 (swap 4 size.toNat)

/-- What a write call gives to the transport, one after the other. -/
def given : Piece → List Bytes
  | bool v => [image 1 (if v then 1 else 0)]
  | byte v => [image 1 v.toNat]
  | i16 v | u16 v => [image 2 (swap 2 v.toNat)]
  | i32 v | u32 v | ipv4 v => [image 4 (swap 4 v.toNat)]
  | i64 v | u64 v | double v => [image 8 (swap 8 v.toNat)]
  | ipaddr a => [image 1 (BitVec.ofNat 8 (family a).1).toNat, (family a).2]
  | string s | xml s | sandeshBegin s => ofString s
  | uuid u _ => [u]
  | fieldBegin t id _ => [ofCode t, image 2 (swap 2 id.toNat)]
  | fieldStop => [ofCode .T_STOP]
  | listBegin t n | setBegin t n => [ofCode t, ofSize n]
  | mapBegin k v n => [ofCode k, ofCode v, ofSize n]

/-- The bytes that it adds to a buffer without a bound. -/
def bytes (p : Piece) : Bytes := p.given.flatten

end Piece

/-- The bytes of a sandesh in a buffer without a bound. -/
def encoding (sandesh : List Piece) : Bytes := sandesh.flatMap Piece.bytes

end Sandesh.Binary.Cpp

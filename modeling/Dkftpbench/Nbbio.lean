import Dkftpbench.CLib
import Dkftpbench.RingWindow

/-!
# The circular buffer of nbbio.h and nbbio.cc

The buffer and both indices are those of the class; `& (BUFLEN-1)` is the remainder
modulo `BUFLEN`, also of a negative difference. The array is a function on integers,
so that an access outside `0, ..., BUFLEN-1` would be seen: every operation also
returns the ranges of the array that it copied to or from or handed to the kernel,
each with the indices of that moment.

A pointer with a count is the list of the bytes it points at. The kernel of one
descriptor is a parameter that answers the first, second, ... call of an operation.
-/
namespace Dkftpbench
open CLib RingWindow

def nbbioBufLen : ℤ := 1024

structure Nbbio where
  buf : ℤ → Byte
  getFrom : ℤ
  putTo : ℤ
  linelen : ℕ
  lastchar : Byte

/-- What `read` and `write` answer: at most what was asked for, or an error. -/
structure Kernel where
  read : ℕ → ℕ → Except ℤ (List Byte)
  read_le : ∀ i n bs, read i n = .ok bs → bs.length ≤ n
  write : ℕ → List Byte → Except ℤ ℕ
  write_le : ∀ i bs n, write i bs = .ok n → n ≤ bs.length

namespace Nbbio

/-- A range of `buf` that was read or, for a store, could be written. -/
structure Access where
  store : Bool
  off : ℤ
  len : ℤ
  getFrom : ℤ
  putTo : ℤ
deriving DecidableEq, Repr

def load (s : Nbbio) (off len : ℤ) : Access := ⟨false, off, len, s.getFrom, s.putTo⟩

def store (s : Nbbio) (off len : ℤ) : Access := ⟨true, off, len, s.getFrom, s.putTo⟩

/-- The array itself is not cleared. -/
def init (s : Nbbio) : Nbbio := { s with putTo := 0, getFrom := 0, linelen := 0, lastchar := 0 }

def bytesUsed (s : Nbbio) : ℤ := (s.putTo-s.getFrom) % nbbioBufLen

def bytesFree (s : Nbbio) : ℤ := nbbioBufLen-1-s.bytesUsed

def isEmpty (s : Nbbio) : Bool := s.putTo == s.getFrom

def isFull (s : Nbbio) : Bool := s.bytesFree == 0

def contigBytesUsed (s : Nbbio) : ℤ :=
  (if s.putTo ≥ s.getFrom then s.putTo else nbbioBufLen)-s.getFrom

def contigBytesFree (s : Nbbio) : ℤ :=
  ((if s.getFrom > s.putTo then s.getFrom-1 else nbbioBufLen)-s.putTo)-
    (if s.getFrom = 0 then 1 else 0)

/-- `memcpy` into the array. -/
def copyIn (s : Nbbio) (off : ℤ) (bs : List Byte) : Nbbio := { s with buf := overwrite s.buf off bs }

@[simp] theorem copyIn_putTo (s : Nbbio) (off : ℤ) (bs : List Byte) :
    (s.copyIn off bs).putTo = s.putTo := rfl

/-- The bytes at `off`, ..., `off+len-1`. -/
def slice (s : Nbbio) (off len : ℤ) : List Byte :=
  (List.range len.toNat).map fun k : ℕ => s.buf (off+k)

def put (s : Nbbio) (p : List Byte) : ℤ × Nbbio × List Access :=
  let n : ℤ := p.length
  if s.bytesFree < n then
    if n ≥ nbbioBufLen then (EMSGSIZE, s, []) else (EWOULDBLOCK, s, [])
  else
    let ncopy := if s.contigBytesFree > n then n else s.contigBytesFree
    let a := s.store s.putTo ncopy
    let s := s.copyIn s.putTo (p.take ncopy.toNat)
    let n := n-ncopy
    let s := { s with putTo := s.putTo+ncopy }
    if s.putTo = nbbioBufLen then
      let s := { s with putTo := 0 }
      if n > 0 then
        let b := s.store 0 n
        (0, { s.copyIn 0 (p.drop ncopy.toNat) with putTo := n }, [a, b])
      else (0, s, [a])
    else (0, s, [a])

def readc (s : Nbbio) : Byte × Nbbio × List Access :=
  (s.buf s.getFrom, { s with getFrom := (s.getFrom+1) % nbbioBufLen }, [s.load s.getFrom 1])

/-- Returns also the bytes that the kernel accepted. The recursion for the second
half goes at most one level deep, which `fuel` bounds. -/
def flushTo (k : Kernel) : ℕ → ℕ → Nbbio → Option (ℤ × Nbbio × List Byte × List Access)
  | 0, _, _ => none
  | fuel+1, i, s =>
    let contigused := s.contigBytesUsed
    if contigused = 0 then some (0, s, [], [])
    else
      let chunk := s.slice s.getFrom contigused
      let a := s.load s.getFrom contigused
      match k.write i chunk with
      | .error e => some (e, s, [], [a])
      | .ok nwrite =>
        let s := { s with getFrom := s.getFrom+nwrite }
        if s.getFrom = nbbioBufLen then
          let s := { s with getFrom := 0 }
          if !s.isEmpty then
            (flushTo k fuel (i+1) s).map fun r =>
              (r.1, r.2.1, chunk.take nwrite ++ r.2.2.1, a :: r.2.2.2)
          else some (0, s, chunk.take nwrite, [a])
        else some (0, s, chunk.take nwrite, [a])

/-- Returns also the bytes that the kernel delivered. -/
def fillFrom (k : Kernel) (s : Nbbio) : ℤ × Nbbio × List Byte × List Access :=
  let contigfree := s.contigBytesFree
  if contigfree = 0 then (0, s, [], [])
  else
    let a := s.store s.putTo contigfree
    match k.read 0 contigfree.toNat with
    | .error e => (e, s, [], [a])
    | .ok bs =>
      let nread : ℤ := bs.length
      if nread = 0 then (EPIPE, s, [], [a])
      else
        let s := { s.copyIn s.putTo bs with putTo := s.putTo+nread }
        if s.putTo = nbbioBufLen then
          let s := { s with putTo := 0 }
          if nread = contigfree then
            let contigfree := s.contigBytesFree
            if contigfree = 0 then (0, s, bs, [a])
            else
              let b := s.store 0 contigfree
              match k.read 1 contigfree.toNat with
              | .error e => (e, s, bs, [a, b])
              | .ok cs => (0, { s.copyIn 0 cs with putTo := cs.length }, bs ++ cs, [a, b])
          else (0, s, bs, [a])
        else (0, s, bs, [a])

/-- The loop of `readline`, for as many iterations as there are bytes. It ends with
an error code, or without one when the loop condition fails. -/
def readlineLoop (maxlen : ℕ) : ℕ → Nbbio → (ℕ → Byte) → Option ℤ × Nbbio × (ℕ → Byte)
  | 0, s, linebuf => (none, s, linebuf)
  | fuel+1, s, linebuf =>
    if !s.isEmpty ∧ s.linelen < maxlen then
      let (c, s, _) := s.readc
      if c = LF then
        if s.lastchar ≠ CR then
          (some 0, { s with lastchar := c, linelen := 0 }, Function.update linebuf s.linelen 0)
        else readlineLoop maxlen fuel s linebuf
      else if c = CR then
        (some 0, { s with lastchar := c, linelen := 0 }, Function.update linebuf s.linelen 0)
      else
        readlineLoop maxlen fuel { s with lastchar := c, linelen := s.linelen+1 }
          (Function.update linebuf s.linelen c)
    else (none, s, linebuf)

/-- Returns also the caller's line buffer. -/
def readline (s : Nbbio) (linebuf : ℕ → Byte) (maxlen : ℕ) : ℤ × Nbbio × (ℕ → Byte) :=
  if s.isEmpty then (EWOULDBLOCK, s, linebuf)
  else
    match readlineLoop maxlen s.bytesUsed.toNat s linebuf with
    | (some err, s, linebuf) => (err, s, linebuf)
    | (none, s, linebuf) => (if s.linelen = maxlen then ENOSPC else EWOULDBLOCK, s, linebuf)

end Nbbio
end Dkftpbench

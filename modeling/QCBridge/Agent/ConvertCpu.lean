import QCBridge.ForStd.Chunks

/-!
# The conversion on the CPU

`convert_cpu` of `encode-win/src/main.rs`: where the GPU cannot do it, threads convert the frame to
P010, each a chunk of row pairs. The chunks are cut out of the two planes, so no two threads have
a word in common and what they do to theirs is all that there is.

What becomes of a pixel is a parameter. Every access is to a slice or a pointer that goes through
the bounds it must keep; `none` is an access out of bounds.
-/

namespace QCBridge

namespace EncodeWin

/-- A word of a plane. -/
structure Word where
  value : UInt16
  /-- How often it was written: history. -/
  writes : Nat := 0
deriving DecidableEq, Repr

def Word.write (word : Word) (value : UInt16) : Word := ⟨value, word.writes + 1⟩

/-- What becomes of pixels, each four `f32` in sixteen bytes: the word of one in the luma plane, and
    the two words of four in the chroma plane. -/
structure PixelCodes where
  luma : List UInt8 → UInt16
  chroma : List (List UInt8) → UInt16 × UInt16

/-- The arguments of `convert_cpu` that all threads read. -/
structure Conversion where
  codes : PixelCodes
  /-- `pixels`, with `bpr * h` bytes. -/
  src : List UInt8
  bpr : Nat
  w : Nat
  h : Nat
  yPitch : Nat
  cPitch : Nat

/-- `&l[a..b]`. -/
def slice? {α : Type} (l : List α) (a b : Nat) : Option (List α) :=
  if a ≤ b ∧ b ≤ l.length then some ((l.drop a).take (b - a)) else none

/-- `l[i] = value`. -/
def put? (l : List Word) (i : Nat) (value : UInt16) : Option (List Word) :=
  if i < l.length then some (l.modify i (·.write value)) else none

/-- `for i in 0..n`. -/
def upTo? {σ : Type} (body : σ → Nat → Option σ) (n : Nat) (s : σ) : Option σ :=
  (List.range n).foldlM body s

/-- `chunks_mut`. -/
def chunksMut? {α : Type} (n : Nat) (l : List α) : Option (List (List α)) :=
  if n = 0 then none else some (chunks n ((l.length + n - 1) / n) l)

namespace Conversion

variable (f : Conversion)

/-- The row of `src` for a row of the frame: ring rows are bottom-up. -/
def srow? (py : Nat) : Option Nat := if py < f.h then some (f.h - 1 - py) else none

/-- The loop over `x`: row `pair * 2 + dy` of the frame, into the luma rows `yc` of a chunk. -/
def lumaRow? (pair pr dy : Nat) (yc : List Word) : Option (List Word) := do
  let srow ← f.srow? (2 * pair + dy)
  let srcrow ← slice? f.src (srow * f.bpr) (srow * f.bpr + f.w * 16)
  let yrow := (2 * pr + dy) * f.yPitch
  let _ ← slice? yc yrow (yrow + f.w)
  upTo? (fun yc x => do
    let px ← slice? srcrow (x * 16) (x * 16 + 16)
    put? yc (yrow + x) (f.codes.luma px)) f.w yc

/-- A pixel of `src`, read through a pointer. -/
def pixel? (py x : Nat) : Option (List UInt8) := do
  let srow ← f.srow? py
  slice? f.src (srow * f.bpr + x * 16) (srow * f.bpr + x * 16 + 16)

/-- A turn of the loop over `cx`: four pixels, and the two words of a pair. -/
def chromaPair? (pair : Nat) (crow : List Word) (cx : Nat) : Option (List Word) := do
  let y0 := 2 * pair
  let px ← [(0, 0), (0, 1), (1, 0), (1, 1)].mapM fun d => f.pixel? (y0 + d.1) (2 * cx + d.2)
  let codes := f.codes.chroma px
  let crow ← put? crow (2 * cx) codes.1
  put? crow (2 * cx + 1) codes.2

/-- The loop over `cx`, into a chroma row. -/
def chromaRow? (pair : Nat) (crow : List Word) : Option (List Word) :=
  upTo? (f.chromaPair? pair) (f.w / 2) crow

/-- The loop over the chroma rows of a chunk. -/
def pairs? (firstPair : Nat) : List (List Word) → Nat → List Word →
    Option (List Word × List (List Word))
  | [], _, yc => some (yc, [])
  | crow :: rest, pr, yc =>
    let pair := firstPair + pr
    if f.h / 2 ≤ pair then some (yc, crow :: rest)
    -- the last chunk may reach past the image
    else do
      -- two luma rows for each chroma row
      let yc ← f.lumaRow? pair pr 0 yc
      let yc ← f.lumaRow? pair pr 1 yc
      let crow ← f.chromaRow? pair crow
      let (yc, rest) ← pairs? firstPair rest (pr + 1) yc
      return (yc, crow :: rest)

/-- What a thread does. -/
def thread? (firstPair : Nat) (yc cc : List Word) : Option (List Word × List Word) := do
  let crows ← chunksMut? f.cPitch cc
  let (yc, crows) ← f.pairs? firstPair crows 0 yc
  return (yc, crows.flatten)

/-- All threads, from number `t` on. Chunks that have no partner are left. -/
def threads? (chunk : Nat) : Nat → List (List Word) → List (List Word) →
    Option (List (List Word) × List (List Word))
  | t, yc :: ys, cc :: cs => do
    let (yc, cc) ← f.thread? (t * chunk) yc cc
    let (ys, cs) ← threads? chunk (t + 1) ys cs
    return (yc :: ys, cc :: cs)
  | _, ys, cs => some (ys, cs)

/-- `convert_cpu`, with so many threads. -/
def convertCpu (threads : Nat) (yPlane cPlane : List Word) : Option (List Word × List Word) := do
  let pairRows := f.h / 2
  let chunk := (pairRows + threads - 1) / threads
  let ys ← chunksMut? (f.yPitch * 2 * chunk) yPlane
  let cs ← chunksMut? (f.cPitch * chunk) cPlane
  let (ys, cs) ← f.threads? chunk 0 ys cs
  return (ys.flatten, cs.flatten)

end Conversion

end EncodeWin

end QCBridge

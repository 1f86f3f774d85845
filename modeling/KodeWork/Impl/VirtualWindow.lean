import Mathlib.Tactic.Common

/-!
# The window of a virtual list

`calculateVirtualWindow` of `src/files/virtualization.ts`, in exact arithmetic, and what
`VirtualFileList.tsx` asks of it.
-/

namespace KW.VirtualList

structure VirtualWindow where
  start : Int
  endIndex : Int
  offsetTop : Int
  totalHeight : Int
deriving DecidableEq, Repr

/-- `Math.ceil(a / b)`. -/
def ceilDiv (a b : Int) : Int := -(-a / b)

/-- `boundedScrollTop`. -/
def boundedScrollTop (itemCount scrollTop viewportHeight rowHeight : Int) : Int :=
  let safeViewport := max 0 viewportHeight
  let totalHeight := itemCount * rowHeight
  let maxScrollTop := max 0 (totalHeight - safeViewport)
  min (max 0 scrollTop) maxScrollTop

def calculateVirtualWindow (itemCount scrollTop viewportHeight rowHeight overscan : Int) : VirtualWindow :=
  if itemCount ≤ 0 ∨ rowHeight ≤ 0 then ⟨0, 0, 0, 0⟩
  else
    let safeViewport := max 0 viewportHeight
    let totalHeight := itemCount * rowHeight
    let bounded := boundedScrollTop itemCount scrollTop viewportHeight rowHeight
    let firstVisible := min (itemCount - 1) (bounded / rowHeight)
    let visibleCount := max 1 (ceilDiv safeViewport rowHeight)
    let start := max 0 (firstVisible - max 0 overscan)
    let endIndex := min itemCount (firstVisible + visibleCount + max 0 overscan)
    { start := start
      endIndex := endIndex
      offsetTop := start * rowHeight
      totalHeight := totalHeight }

def rowHeight : Int := 34
def overscan : Int := 10

/-- The entries that `VirtualFileList` shows. -/
def windowRange (entries : Nat) (scrollTop height : Int) : VirtualWindow :=
  calculateVirtualWindow entries scrollTop height rowHeight overscan

end KW.VirtualList

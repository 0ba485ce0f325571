import GoLab.Raft.BitVec

/-!
# Counting replication (`ReplCounter` of `repl.go`)

The leader watches the indices of the entries it appended in its own term.  Each
watched index has a bit for every peer that confirmed it; the longest run of
watched indices confirmed by a majority is committed and leaves the window.
-/

namespace GoLab.Raft

structure ReplEntry where
  bitVec : BitVec
  index : Int
  deriving DecidableEq, Repr

structure ReplCounter where
  entries : List ReplEntry
  deriving DecidableEq, Repr

namespace ReplCounter

/-- `newReplCounter`. -/
def new : ReplCounter := ⟨[]⟩

/-- `watchIndex`, by server `me` of `peers`: the new index has to follow the last
watched one, and the leader's own bit is set at once. -/
def watchIndex (rc : ReplCounter) (peers me : Nat) (idx : Int) : Option ReplCounter := do
  guard (∀ last ∈ rc.entries.getLast?, idx = last.index + 1)
  let (bitVec, _) ← (BitVec.new peers).set me
  return ⟨rc.entries ++ [⟨bitVec, idx⟩]⟩

/-- The marking loop of `confirm` over the offsets in `[lo, hi)`. -/
def mark (peerId : Nat) (lo hi : Int) : (offset : Int) → List ReplEntry →
    Option (List ReplEntry)
  | _, [] => some []
  | offset, entry :: rest => do
      let entry ←
        if lo ≤ offset ∧ offset < hi then do
          let (bitVec, _) ← entry.bitVec.set peerId
          some { entry with bitVec }
        else
          some entry
      let rest ← mark peerId lo hi (offset + 1) rest
      return entry :: rest

/-- The longest run of entries at the front that a majority confirmed. -/
def confirmed (majorN : Nat) (entries : List ReplEntry) : List ReplEntry :=
  entries.takeWhile fun entry => decide (entry.bitVec.count ≥ majorN)

/-- `confirm`: the new counter, and the index to commit if there is one. -/
def confirm (rc : ReplCounter) (majorN peerId : Nat) (startIdx endIdx : Int) :
    Option (ReplCounter × Option Int) :=
  match rc.entries with
  | [] => some (rc, none)
  | first :: _ => do
      let endOffset := endIdx - first.index
      guard (endOffset ≤ rc.entries.length)
      let entries ← mark peerId (max (startIdx - first.index) 0) endOffset 0 rc.entries
      match (confirmed majorN entries).getLast? with
      | none => return (⟨entries⟩, none)
      | some last =>
          return (⟨entries.drop (confirmed majorN entries).length⟩, some last.index)

end ReplCounter

end GoLab.Raft

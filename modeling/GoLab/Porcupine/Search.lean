import GoLab.Porcupine.Nodes

/-!
# The search of `checkSingle`

The operations in `calls` are picked one after the other, and the list holds the entries of
those that are left.  At such a level of the search the calls in front of the first return are
tried in turn.  When that return is reached, every one of them has been refuted: each order
that begins with it is incomplete, and `longest` has a sequence that is at least as long for
every operation in it.

A pair in the cache has been refuted in the same sense or is on the way to the present level.
-/

namespace GoLab.Porcupine

open Marks

variable {V S : Type}

/-- The entry of a node. -/
def Heap.mark (heap : Heap V) (p : Ptr) : Mark Int :=
  match heap.matching p with
  | some _ => .call (heap.id p)
  | none => .ret (heap.id p)

@[simp]
theorem Heap.id_mark (heap : Heap V) (p : Ptr) : (heap.mark p).id = heap.id p := by
  unfold mark
  split <;> rfl

/-- The nodes of a history in which the operations `0` to `n - 1` are called and return, and
what the model says of them.  Only the links of the nodes change during the search. -/
structure Arena (V S : Type) where
  model : FullModel V S
  computePartial : Bool
  heap : Heap V
  head : Ptr
  cells : List Ptr
  n : Nat
  accept : S → Int → Option S
  balanced : Balanced (cells.map heap.mark)
  outside : head ∉ cells
  matched : ∀ p ∈ cells, ∀ q, heap.matching p = some q → q ∈ cells ∧ heap.mark q = .ret (heap.id p)
  numbered : ∀ p ∈ cells, 0 ≤ heap.id p ∧ heap.id p < n
  accepts : ∀ p ∈ cells, ∀ q, heap.matching p = some q → ∀ s, ∃ ok s',
    model.step s (heap.value p) (heap.value q) = some (ok, s') ∧
      accept s (heap.id p) = if ok then some s' else none
  congruent : ∃ r : S → S → Prop, (∀ s t, model.equal s t = true → r s t) ∧
    ∀ s t x s', r s t → accept s x = some s' → ∃ t', accept t x = some t' ∧ r s' t'

/-- `longest` has a sequence of at least this length for the operation. -/
def Longest.Covers (longest : Longest) (x : Int) (size : Nat) : Prop :=
  ∃ seq, longest[x.toNat]? = some (some seq) ∧ size ≤ seq.length

/-- No sequence was replaced by a shorter one. -/
def Longest.Grows (longest longest' : Longest) : Prop :=
  ∀ x size, longest.Covers x size → longest'.Covers x size

/-- The bits are those of the operations. -/
def Bitset.Represents (b : Bitset) (order : List Int) : Prop :=
  ∀ i : Nat, b.mem i = true ↔ (i : Int) ∈ order

/-- The bits determine the operations. -/
theorem Bitset.Represents.perm {b : Bitset} {order order' : List Int} (is : b.Represents order)
    (is' : b.Represents order') (once : order.Nodup) (once' : order'.Nodup)
    (positive : ∀ x ∈ order, 0 ≤ x) (positive' : ∀ x ∈ order', 0 ≤ x) : order.Perm order' := by
  refine (List.perm_ext_iff_of_nodup once once').mpr fun x => ?_
  by_cases isNat : 0 ≤ x
  · rw [← Int.toNat_of_nonneg isNat, ← is, ← is']
  · exact iff_of_false (fun inside => isNat (positive x inside))
      fun inside => isNat (positive' x inside)

namespace Search

/-- The search at the same level, with another cache, another `longest` and at another node. -/
def resume (s : Search V S) (cache : Cache S) (longest : Longest) (entry : Option Ptr) :
    Search V S :=
  { s with cache, longest, entry }

/-- The search one level further down, after the call at `p`. -/
def deeper (s : Search V S) (p : Ptr) (heap : Heap V) (linearized : Bitset) (state : S) :
    Search V S :=
  { s with heap, linearized, state, calls := s.calls ++ [⟨p, s.state⟩] }

end Search

namespace Longest

variable {longest longest' longest'' : Longest}

theorem Grows.refl : longest.Grows longest :=
  fun _ _ covers => covers

theorem Grows.trans (first : longest.Grows longest') (second : longest'.Grows longest'') :
    longest.Grows longest'' :=
  fun x size covers => second x size (first x size covers)

/-- One operation of the sequence that is entered. -/
theorem enter_spec {seq : List Int} {x : Int} (inside : x.toNat < longest.length) (isIndex : 0 ≤ x)
    (isSeq : x ∈ seq) :
    ∃ longest', longest.enter seq x = some longest' ∧ longest'.length = longest.length ∧ longest.Grows longest' ∧ longest'.Covers x seq.length ∧
      ∀ (i : Nat) (other : List Int), longest'[i]? = some (some other) →
        longest[i]? = some (some other) ∨ (other = seq ∧ (i : Int) ∈ seq) := by
  obtain ⟨old, isOld⟩ : ∃ old, longest[x.toNat]? = some old := ⟨_, List.getElem?_eq_getElem inside⟩
  simp only [enter, index, if_pos isIndex, Option.bind_eq_bind, Option.bind_some, isOld]
  split
  case isTrue longer =>
    refine ⟨longest.set x.toNat (some seq), rfl, List.length_set .., ?_, ?_, ?_⟩
    · rintro y size ⟨known, isKnown, atLeast⟩
      by_cases same : x.toNat = y.toNat
      · refine ⟨seq, by simp [← same, inside], ?_⟩
        rw [← same, isOld] at isKnown
        cases isKnown
        have shorter : known.length < seq.length := by simpa using longer
        omega
      · exact ⟨known, by simp [same, isKnown], atLeast⟩
    · exact ⟨seq, by simp [inside], Nat.le_refl _⟩
    · intro i other isOther
      by_cases same : x.toNat = i
      · subst same
        have isNew : seq = other := by simpa [inside] using isOther
        exact .inr ⟨isNew.symm, by simpa [isIndex] using isSeq⟩
      · exact .inl (by simpa [same] using isOther)
  case isFalse notLonger =>
    refine ⟨longest, rfl, rfl, .refl, ?_, fun _ _ isOther => .inl isOther⟩
    cases old with
    | none => simp at notLonger
    | some known => exact ⟨known, isOld, by simpa using notLonger⟩

/-- Every operation of the sequence is covered by it or by a longer one. -/
theorem record_spec {seq : List Int} (numbered : ∀ x ∈ seq, 0 ≤ x ∧ x.toNat < longest.length) :
    ∃ longest', longest.record seq = some longest' ∧ longest'.length = longest.length ∧
      longest.Grows longest' ∧ (∀ x ∈ seq, longest'.Covers x seq.length) ∧
      ∀ (i : Nat) (other : List Int), longest'[i]? = some (some other) →
        longest[i]? = some (some other) ∨ (other = seq ∧ (i : Int) ∈ seq) := by
  unfold record
  suffices general : ∀ ids : List Int, (∀ x ∈ ids, x ∈ seq) → ∃ longest',
      ids.foldlM (fun longest id => longest.enter seq id) longest = some longest' ∧
      longest'.length = longest.length ∧ longest.Grows longest' ∧
      (∀ x ∈ ids, longest'.Covers x seq.length) ∧
      ∀ (i : Nat) (other : List Int), longest'[i]? = some (some other) →
        longest[i]? = some (some other) ∨ (other = seq ∧ (i : Int) ∈ seq) from
    general seq fun _ inside => inside
  intro ids subset
  induction ids generalizing longest with
  | nil => exact ⟨longest, rfl, rfl, .refl, by simp, fun _ _ isOther => .inl isOther⟩
  | cons x ids ih =>
      have isSeq := subset x (List.mem_cons_self ..)
      obtain ⟨isIndex, inside⟩ := numbered x isSeq
      obtain ⟨next, first, sameLength, grows, covers, entered⟩ :=
        enter_spec inside isIndex isSeq
      obtain ⟨longest', rest, sameLength', grows', covers', entered'⟩ :=
        ih (by rw [sameLength]; exact numbered)
          fun y later => subset y (List.mem_cons_of_mem _ later)
      refine ⟨longest', ?_, sameLength'.trans sameLength, grows.trans grows', ?_, ?_⟩
      · rw [List.foldlM_cons, first]
        exact rest
      · intro y isY
        rcases List.mem_cons.mp isY with rfl | later
        · exact grows' _ _ covers
        · exact covers' y later
      · intro i other isOther
        rcases entered' i other isOther with before | isNew
        · exact entered i other before
        · exact .inr isNew

end Longest

namespace Arena

variable (a : Arena V S)

/-- The history. -/
def marks : List (Mark Int) :=
  a.cells.map a.heap.mark

/-- The nodes that are left when the operations of `order` are taken out. -/
def left (order : List Int) : List Ptr :=
  a.cells.filter (a.heap.id · ∉ order)

/-- The entries that are left. -/
def leftMarks (order : List Int) : List (Mark Int) :=
  a.marks.filter (·.id ∉ order)

/-- After the operations of `order`, in the state `s`, the history cannot be completed, and
what can be picked is covered. -/
def Explored (longest : Longest) (order : List Int) (s : S) : Prop :=
  ∀ more rest t, Picks a.accept (a.leftMarks order) s more rest t → rest ≠ [] ∧
    (a.computePartial = true →
      ∀ x ∈ order ++ more, longest.Covers x (order.length + more.length))

/-- A sequence that is entered for an operation has it, and can be picked. -/
structure Sound (longest : Longest) : Prop where
  size : longest.length = a.n
  legal : ∀ (i : Nat) (seq : List Int), longest[i]? = some (some seq) →
    (i : Int) ∈ seq ∧ ∃ rest t, Picks a.accept a.marks a.model.init seq rest t

/-- Rounds of the loop in which nobody has asked it to stop. -/
inductive Goes : Nat → Search V S → Search V S → Prop where
  | refl {s : Search V S} : Goes 0 s s
  | next {rounds : Nat} {s s' t : Search V S} (sound : a.Sound s.longest)
      (round : s.iterate a.model a.computePartial false = some (.again s'))
      (onward : Goes rounds s' t) : Goes (rounds + 1) s t

/-- A pair in the cache that has been explored. -/
def Dead (longest : Longest) (entry : CacheEntry S) : Prop :=
  ∃ order, order.Nodup ∧ (∀ x ∈ order, 0 ≤ x) ∧ entry.linearized.Represents order ∧
    a.Explored longest order entry.state

/-- The pairs in the cache are dead, or have at most `level` operations. -/
def CacheOk (cache : Cache S) (longest : Longest) (level : Nat) : Prop :=
  ∀ hash, ∀ entry ∈ cache hash, a.Dead longest entry ∨
    ∃ order, order.Nodup ∧ (∀ x ∈ order, 0 ≤ x) ∧ entry.linearized.Represents order ∧
      order.length ≤ level

/-- What the cache has more than before is dead. -/
def Spent (cache cache' : Cache S) (longest : Longest) : Prop :=
  ∀ hash, ∀ entry ∈ cache' hash, entry ∈ cache hash ∨ a.Dead longest entry

/-- The variables of the search at a level. -/
structure Level (s : Search V S) : Prop where
  head : s.headEntry = a.head
  heap : ∃ links, s.heap = { a.heap with toLinks := links }
  strung : s.heap.toLinks.Strung (a.head :: a.left s.seq)
  bits : s.linearized.Represents s.seq
  words : s.linearized.length = (newBitset a.n).length
  calls : ∀ v ∈ s.calls, v.entry ∈ a.cells
  path : Picks a.accept a.marks a.model.init s.seq (a.leftMarks s.seq) s.state

/-- From this state every order that begins with the operation has been explored. -/
def Refuted (longest : Longest) (s : Search V S) (x : Int) : Prop :=
  ∀ t, a.accept s.state x = some t → a.Explored longest (s.seq ++ [x]) t

/-- The search at a level ends when all operations have been picked, or at a return in front of
which every call is refuted. -/
inductive Explores (s : Search V S) (cache : Cache S) (longest : Longest) (entry : Option Ptr) :
    Prop where
  | found {rounds : Nat} {u : Search V S} (goes : a.Goes rounds (s.resume cache longest entry) u)
      (level : a.Level u) (sound : a.Sound u.longest) (complete : a.left u.seq = [])
  | refuted {rounds : Nat} {cache' : Cache S} {longest' : Longest} {q : Ptr}
      (goes : a.Goes rounds (s.resume cache longest entry) (s.resume cache' longest' (some q)))
      (inside : q ∈ a.left s.seq) (isReturn : a.heap.matching q = none)
      (spent : a.Spent cache cache' longest')
      (sound : a.Sound longest') (grows : longest.Grows longest')
      (refuted : ∀ x, Ready (a.leftMarks s.seq) x → a.Refuted longest' s x)

section

variable {a} {longest longest' : Longest} {order order' more : List Int} {s t : S} {x : Int}

theorem Goes.trans {first second : Nat} {s t u : Search V S} (before : a.Goes first s t)
    (after : a.Goes second t u) : a.Goes (first + second) s u := by
  induction before with
  | refl => simpa using after
  | next sound round _ ih =>
      rw [Nat.add_right_comm]
      exact .next sound round (ih after)

theorem leftMarks_eq : a.leftMarks order = (a.left order).map a.heap.mark := by
  simp [leftMarks, left, marks, List.filter_map, Function.comp_def]

theorem leftMarks_nil : a.leftMarks [] = a.marks := by
  simp [leftMarks]

theorem left_nil : a.left [] = a.cells := by
  simp [left]

theorem without_leftMarks : without (a.leftMarks order) x = a.leftMarks (order ++ [x]) := by
  simp only [without, leftMarks, List.filter_filter]
  congr 1
  funext mark
  simp [and_comm]

theorem balanced_marks : Balanced a.marks :=
  a.balanced

theorem balanced_leftMarks : Balanced (a.leftMarks order) :=
  a.balanced.filter (· ∉ order)

theorem left_nodup : (a.head :: a.left order).Nodup := by
  refine List.nodup_cons.mpr ⟨fun inside => ?_, (List.Nodup.of_map _ a.balanced.once).filter _⟩
  exact a.outside (List.mem_of_mem_filter inside)

/-- The return of a call that is left comes after it. -/
theorem left_split {front back : List Ptr} {p q : Ptr} (split : a.left order = front ++ p :: back)
    (isMatching : a.heap.matching p = some q) : ∃ mid back', back = mid ++ q :: back' := by
  have isCall : a.heap.mark p = .call (a.heap.id p) := by simp [Heap.mark, isMatching]
  have inCells {r : Ptr} (inside : r ∈ p :: back) : r ∈ a.cells :=
    List.mem_of_mem_filter (split ▸ List.mem_append_right _ inside : r ∈ a.left order)
  have balanced : Balanced (a.leftMarks order) := balanced_leftMarks
  rw [leftMarks_eq, split, List.map_append, List.map_cons, isCall] at balanced
  obtain ⟨r, inBack, isReturn⟩ := List.mem_map.mp balanced.mem_back
  obtain ⟨isCell, isReturn'⟩ := a.matched p (inCells (List.mem_cons_self ..)) q isMatching
  have same : r = q := List.inj_on_of_nodup_map a.balanced.once
    (inCells (List.mem_cons_of_mem _ inBack)) isCell (isReturn.trans isReturn'.symm)
  exact List.append_of_mem (same ▸ inBack)

/-- The nodes of an operation are those of its call and of its return. -/
theorem eq_or_eq_of_id {p q r : Ptr} (isCell : p ∈ a.cells) (isMatching : a.heap.matching p = some q)
    (inside : r ∈ a.cells) (same : a.heap.id r = a.heap.id p) : r = p ∨ r = q := by
  have ofP : a.heap.mark p = .call (a.heap.id p) := by simp [Heap.mark, isMatching]
  obtain ⟨isCell', ofQ⟩ := a.matched p isCell q isMatching
  cases ofR : a.heap.matching r with
  | some r' =>
      refine .inl (List.inj_on_of_nodup_map a.balanced.once inside isCell ?_)
      rw [ofP, Heap.mark, ofR, same]
  | none =>
      refine .inr (List.inj_on_of_nodup_map a.balanced.once inside isCell' ?_)
      rw [ofQ, Heap.mark, ofR, same]

/-- The list without the two nodes of an operation. -/
theorem left_concat {front mid back : List Ptr} {p q : Ptr}
    (split : a.left order = front ++ p :: (mid ++ q :: back))
    (isMatching : a.heap.matching p = some q) :
    a.left (order ++ [a.heap.id p]) = front ++ (mid ++ back) := by
  have filtered : a.left (order ++ [a.heap.id p]) =
      (a.left order).filter (a.heap.id · ≠ a.heap.id p) := by
    simp only [left, List.filter_filter]
    congr 1
    funext r
    simp [and_comm]
  have inCells {r : Ptr} (inside : r ∈ a.left order) : r ∈ a.cells := List.mem_of_mem_filter inside
  have once : (a.left order).Nodup := (List.nodup_cons.mp left_nodup).2
  have isP : p ∈ a.left order := by simp [split]
  have isQ : q ∈ a.left order := by simp [split]
  have sameID : a.heap.id q = a.heap.id p := by
    have ofQ := (a.matched p (inCells isP) q isMatching).2
    rw [← Heap.id_mark, ofQ]
    rfl
  have others {r : Ptr} (inside : r ∈ front ++ (mid ++ back)) : a.heap.id r ≠ a.heap.id p := by
    intro same
    have inLeft : r ∈ a.left order := by
      rw [split]
      simp only [List.mem_append, List.mem_cons] at inside ⊢
      tauto
    rw [split] at once
    rcases eq_or_eq_of_id (inCells isP) isMatching (inCells inLeft) same with rfl | rfl
    · simp only [List.nodup_append, List.nodup_cons, List.mem_append, List.mem_cons] at inside once
      grind
    · simp only [List.nodup_append, List.nodup_cons, List.mem_append, List.mem_cons] at inside once
      grind
  calc a.left (order ++ [a.heap.id p])
    _ = (front ++ p :: (mid ++ q :: back)).filter (a.heap.id · ≠ a.heap.id p) := by
        rw [filtered, split]
    _ = (front ++ (mid ++ back)).filter (a.heap.id · ≠ a.heap.id p) := by simp [sameID]
    _ = front ++ (mid ++ back) :=
        List.filter_eq_self.mpr fun r inside => decide_eq_true (others inside)

theorem Explored.mono (explored : a.Explored longest order s) (grows : longest.Grows longest') :
    a.Explored longest' order s := by
  intro more rest t picks
  obtain ⟨incomplete, covered⟩ := explored more rest t picks
  exact ⟨incomplete, fun partials x inside => grows _ _ (covered partials x inside)⟩

/-- The same operations in another order, in a state that accepts no more. -/
theorem Explored.transfer (explored : a.Explored longest order t) (perm : order'.Perm order)
    (equal : a.model.equal s t = true) : a.Explored longest order' s := by
  intro more rest u picks
  obtain ⟨r, contains, simulates⟩ := a.congruent
  have sameLeft : a.leftMarks order' = a.leftMarks order := by
    simp only [leftMarks, perm.mem_iff]
  rw [sameLeft] at picks
  obtain ⟨u', picks⟩ := picks.simulate simulates (contains s t equal)
  obtain ⟨incomplete, covered⟩ := explored more rest u' picks
  refine ⟨incomplete, fun partials x inside => ?_⟩
  rw [perm.length_eq]
  exact covered partials x ((perm.append_right more).mem_iff.mp inside)

/-- A level is explored when all that can be picked next is. -/
theorem Explored.of_ready (unfinished : a.leftMarks order ≠ [])
    (covered : a.computePartial = true → ∀ x ∈ order, longest.Covers x order.length)
    (refuted : ∀ x t, Ready (a.leftMarks order) x → a.accept s x = some t →
      a.Explored longest (order ++ [x]) t) : a.Explored longest order s := by
  intro more rest u picks
  cases picks with
  | nil => exact ⟨unfinished, by simpa using covered⟩
  | @cons _ _ _ s' _ x more ready accepted onward =>
      rw [without_leftMarks] at onward
      obtain ⟨incomplete, coversMore⟩ := refuted x s' ready accepted more rest u onward
      refine ⟨incomplete, fun partials y inside => ?_⟩
      have size : order.length + (x :: more).length = (order ++ [x]).length + more.length := by
        simp only [List.length_append, List.length_cons, List.length_nil]
        omega
      rw [size]
      exact coversMore partials y (by simpa using inside)

end

/-! ## Rounds at a level -/

namespace Level

variable {a} {s : Search V S} {cache : Cache S} {longest : Longest} {p q : Ptr}

theorem data (level : a.Level s) : s.heap.value = a.heap.value ∧ s.heap.id = a.heap.id ∧
    s.heap.matching = a.heap.matching := by
  obtain ⟨links, isHeap⟩ := level.heap
  rw [isHeap]
  exact ⟨rfl, rfl, rfl⟩

theorem next_head (level : a.Level s) : s.heap.next s.headEntry = (a.left s.seq).head? := by
  have strung : s.heap.toLinks.Strung ([] ++ a.head :: a.left s.seq) := level.strung
  rw [level.head, strung.next_eq]

theorem unfinished (level : a.Level s) (inside : p ∈ a.left s.seq) :
    s.heap.next s.headEntry ≠ none := by
  rw [level.next_head]
  exact fun isNone => List.ne_nil_of_mem inside (List.head?_eq_none_iff.mp isNone)

theorem seq_nodup (level : a.Level s) : s.seq.Nodup :=
  (level.path.ordering a.balanced).1.once

theorem seq_numbered (level : a.Level s) : ∀ x ∈ s.seq, 0 ≤ x ∧ x < a.n := by
  intro x inside
  obtain ⟨v, isCall, rfl⟩ := List.mem_map.mp inside
  rw [level.data.2.1]
  exact a.numbered v.entry (level.calls v isCall)

/-- The node of an operation that is left. -/
theorem of_left (inside : p ∈ a.left s.seq) : p ∈ a.cells ∧ a.heap.id p ∉ s.seq := by
  simpa [left] using inside

/-- The bit of an operation that is left is set, and can be cleared again. -/
theorem set_bit (level : a.Level s) (inside : p ∈ a.left s.seq) :
    ∃ linearized, s.linearized.set (a.heap.id p).toNat = some linearized ∧
      linearized.length = s.linearized.length ∧ linearized.Represents (s.seq ++ [a.heap.id p]) ∧
      linearized.clear (a.heap.id p).toNat = some s.linearized := by
  obtain ⟨isCell, isLeft⟩ := of_left inside
  obtain ⟨isIndex, below⟩ := a.numbered p isCell
  have isNat : ((a.heap.id p).toNat : Int) = a.heap.id p := Int.toNat_of_nonneg isIndex
  have room : (a.heap.id p).toNat / 64 < s.linearized.length := by
    rw [level.words]
    exact Bitset.lt_newBitset_length (by omega)
  obtain ⟨linearized, isSet, length, here, others⟩ := Bitset.set_eq room
  refine ⟨linearized, isSet, length, fun i => ?_, ?_⟩
  · rw [List.mem_append, List.mem_singleton, ← level.bits i]
    by_cases same : i = (a.heap.id p).toNat
    · subst same
      simp [here, isNat]
    · have other : (i : Int) ≠ a.heap.id p := by omega
      simp [others i same, other]
  · refine Bitset.clear_set ?_ isSet
    rw [← Bool.not_eq_true, level.bits, isNat]
    exact isLeft

/-- A round at a call that is left. -/
theorem iterate_call (level : a.Level s) (inside : p ∈ a.left s.seq)
    (isMatching : a.heap.matching p = some q) :
    (s.resume cache longest (some p)).iterate a.model a.computePartial false =
      ((s.resume cache longest (some p)).tryCall a.model p q).map .again := by
  simp only [Search.iterate, Search.resume, if_neg (level.unfinished inside), Bool.false_eq_true, if_false,
    Option.bind_eq_bind, Option.bind_some, level.data.2.2, isMatching]
  exact Option.map_eq_bind.symm

/-- A round at a return, when operations have been picked. -/
theorem iterate_return (level : a.Level s) (inside : p ∈ a.left s.seq)
    (isReturn : a.heap.matching p = none) (callsTop : CallsEntry S)
    (isTop : s.calls.getLast? = some callsTop) :
    (s.resume cache longest (some p)).iterate a.model a.computePartial false =
      ((s.resume cache longest (some p)).pop a.computePartial callsTop).map .again := by
  simp only [Search.iterate, Search.resume, if_neg (level.unfinished inside), Bool.false_eq_true, if_false,
    Option.bind_eq_bind, Option.bind_some, level.data.2.2, isReturn, isTop]
  exact Option.map_eq_bind.symm

/-- The level below, from which the call can be taken back. -/
theorem descend (level : a.Level s) {front back : List Ptr}
    (split : a.left s.seq = front ++ p :: back) (calls : ∀ r ∈ front, a.heap.matching r ≠ none)
    (isMatching : a.heap.matching p = some q) {t : S}
    (accepted : a.accept s.state (a.heap.id p) = some t) {linearized : Bitset}
    (length : linearized.length = s.linearized.length)
    (bits : linearized.Represents (s.seq ++ [a.heap.id p])) :
    ∃ heap, s.heap.lift p = some heap ∧ heap.unlift p = some s.heap ∧
      (s.deeper p heap linearized t).seq = s.seq ++ [a.heap.id p] ∧
      a.Level (s.deeper p heap linearized t) := by
  obtain ⟨mid, back', rfl⟩ := left_split split isMatching
  have inside : p ∈ a.left s.seq := by simp [split]
  have strung := level.strung
  have once : (a.head :: a.left s.seq).Nodup := left_nodup
  rw [split] at strung once
  obtain ⟨links, lifted, strung', restored⟩ :=
    Heap.lift_unlift strung once (level.data.2.2 ▸ isMatching)
  have seq : (s.deeper p { s.heap with toLinks := links } linearized t).seq =
      s.seq ++ [a.heap.id p] := by
    simp [Search.seq, Search.deeper, level.data.2.1]
  refine ⟨_, lifted, restored, seq, ?_⟩
  refine ⟨level.head, ?_, ?_, ?_, length.trans level.words, ?_, ?_⟩
  · obtain ⟨links', isHeap⟩ := level.heap
    exact ⟨links, by simp [Search.deeper, isHeap]⟩
  · rw [seq, left_concat split isMatching]
    exact strung'
  · rw [seq]
    exact bits
  · intro v isCall
    rcases List.mem_append.mp isCall with before | isNew
    · exact level.calls v before
    · rw [List.mem_singleton.mp isNew]
      exact (of_left inside).1
  · rw [seq, ← without_leftMarks]
    refine level.path.append (.cons ?_ accepted .nil)
    refine ⟨front.map a.heap.mark, (mid ++ q :: back').map a.heap.mark, ?_, ?_⟩
    · rw [leftMarks_eq, split, List.map_append, List.map_cons]
      simp [Heap.mark, isMatching]
    · intro mark isFront
      obtain ⟨r, before, rfl⟩ := List.mem_map.mp isFront
      obtain ⟨r', isMatching'⟩ := Option.ne_none_iff_exists'.mp (calls r before)
      simp [Heap.mark, isMatching', Mark.isCall]

/-- A pair that is found in the cache has been explored. -/
theorem explored_of_cache (level : a.Level s) (inside : p ∈ a.left s.seq)
    (cacheOk : a.CacheOk cache longest s.seq.length) {linearized : Bitset} {t : S}
    (bits : linearized.Represents (s.seq ++ [a.heap.id p]))
    (found : cacheContains a.model cache ⟨linearized, t⟩ = true) :
    a.Explored longest (s.seq ++ [a.heap.id p]) t := by
  obtain ⟨isCell, isLeft⟩ := of_left inside
  obtain ⟨elem, inCache, same⟩ := List.any_eq_true.mp found
  rw [Bool.and_eq_true, Bitset.equals_iff] at same
  obtain ⟨rfl, equal⟩ := same
  have once : (s.seq ++ [a.heap.id p]).Nodup :=
    List.nodup_append_comm.mp (List.nodup_cons.mpr ⟨isLeft, level.seq_nodup⟩)
  have positive : ∀ x ∈ s.seq ++ [a.heap.id p], 0 ≤ x := by
    intro x isX
    rcases List.mem_append.mp isX with before | isNew
    · exact (level.seq_numbered x before).1
    · rw [List.mem_singleton.mp isNew]
      exact (a.numbered p isCell).1
  rcases cacheOk _ elem inCache with ⟨order, once', positive', bits', explored⟩ |
      ⟨order, once', positive', bits', small⟩
  · exact explored.transfer (bits.perm bits' once once' positive positive') equal
  · have size := (bits.perm bits' once once' positive positive').length_eq
    rw [List.length_append, List.length_singleton] at size
    omega

/-- A call is tried: it is refuted, or the search goes one level down. -/
theorem trial (level : a.Level s) {front back : List Ptr}
    (split : a.left s.seq = front ++ p :: back) (calls : ∀ r ∈ front, a.heap.matching r ≠ none)
    (isMatching : a.heap.matching p = some q)
    (cacheOk : a.CacheOk cache longest s.seq.length) :
    ((s.resume cache longest (some p)).iterate a.model a.computePartial false =
        some (.again (s.resume cache longest (s.heap.next p))) ∧
      ∀ t, a.accept s.state (a.heap.id p) = some t →
        a.Explored longest (s.seq ++ [a.heap.id p]) t) ∨
    ∃ t heap linearized, a.accept s.state (a.heap.id p) = some t ∧
      (s.resume cache longest (some p)).iterate a.model a.computePartial false =
        some (.again ((s.deeper p heap linearized t).resume (cache.add ⟨linearized, t⟩) longest
          (heap.next s.headEntry))) ∧
      heap.unlift p = some s.heap ∧
      linearized.clear (a.heap.id p).toNat = some s.linearized ∧
      (s.deeper p heap linearized t).seq = s.seq ++ [a.heap.id p] ∧
      a.Level (s.deeper p heap linearized t) := by
  have inside : p ∈ a.left s.seq := by simp [split]
  obtain ⟨isCell, -⟩ := of_left inside
  obtain ⟨value, id, -⟩ := level.data
  obtain ⟨ok, t, stepped, accepted⟩ := a.accepts p isCell q isMatching s.state
  rw [level.iterate_call inside isMatching]
  cases ok with
  | false =>
      refine .inl ⟨?_, fun t' isNext => ?_⟩
      · simp [Search.tryCall, Search.resume, Search.advance, value, stepped]
      · rw [accepted] at isNext
        cases isNext
  | true =>
      obtain ⟨linearized, isSet, length, bits, cleared⟩ := level.set_bit inside
      have isIndex : index (a.heap.id p) = some (a.heap.id p).toNat :=
        if_pos (a.numbered p isCell).1
      rw [if_pos rfl] at accepted
      cases found : cacheContains a.model cache ⟨linearized, t⟩ with
      | true =>
          refine .inl ⟨?_, fun t' isNext => ?_⟩
          · simp [Search.tryCall, Search.resume, Search.advance, value, id, stepped, isIndex, isSet,
              found]
          · cases accepted.symm.trans isNext
            exact level.explored_of_cache inside cacheOk bits found
      | false =>
          obtain ⟨heap, lifted, restored, seq, level'⟩ :=
            level.descend split calls isMatching accepted length bits
          refine .inr ⟨t, heap, linearized, accepted, ?_, restored, cleared, seq, level'⟩
          simp [Search.tryCall, Search.resume, Search.push, Search.deeper, value, id, stepped,
            isIndex, isSet, found, lifted]

/-- The call is taken back at the return at which the level below ends. -/
theorem ascend {heap : Heap V} {linearized : Bitset} {t : S} {r : Ptr}
    (level' : a.Level (s.deeper p heap linearized t)) (isCell : p ∈ a.cells)
    (restored : heap.unlift p = some s.heap)
    (cleared : linearized.clear (a.heap.id p).toNat = some s.linearized)
    (inside : r ∈ a.left (s.deeper p heap linearized t).seq)
    (isReturn : a.heap.matching r = none) (sound : a.Sound longest) :
    ∃ longest', ((s.deeper p heap linearized t).resume cache longest (some r)).iterate a.model
        a.computePartial false = some (.again (s.resume cache longest' (s.heap.next p))) ∧
      a.Sound longest' ∧ longest.Grows longest' ∧
      (a.computePartial = true → ∀ x ∈ (s.deeper p heap linearized t).seq,
        longest'.Covers x (s.deeper p heap linearized t).seq.length) := by
  have isTop : (s.deeper p heap linearized t).calls.getLast? = some ⟨p, s.state⟩ := by
    simp [Search.deeper]
  have isIndex : index (a.heap.id p) = some (a.heap.id p).toNat := if_pos (a.numbered p isCell).1
  have id : heap.id = a.heap.id := level'.data.2.1
  rw [level'.iterate_return inside isReturn _ isTop]
  cases partials : a.computePartial with
  | false =>
      refine ⟨longest, ?_, sound, .refl, by simp⟩
      simp [Search.pop, Search.resume, Search.deeper, id, isIndex, cleared, restored]
  | true =>
      have numbered : ∀ x ∈ (s.deeper p heap linearized t).seq,
          0 ≤ x ∧ x.toNat < longest.length := by
        intro x isX
        have := level'.seq_numbered x isX
        rw [sound.size]
        omega
      obtain ⟨longest', recorded, length, grows, covers, entered⟩ := Longest.record_spec numbered
      refine ⟨longest', ?_, ⟨length.trans sound.size, fun i seq isSeq => ?_⟩, grows, fun _ => covers⟩
      · have recorded' : ((s.deeper p heap linearized t).resume cache longest (some r)).longest.record
            ((s.deeper p heap linearized t).resume cache longest (some r)).seq = some longest' :=
          recorded
        rw [Search.pop, if_pos rfl, recorded']
        simp [Search.resume, Search.deeper, id, isIndex, cleared, restored]
      · rcases entered i seq isSeq with before | ⟨rfl, isX⟩
        · exact sound.legal i seq before
        · exact ⟨isX, _, _, level'.path⟩

theorem resume {entry : Option Ptr} (level : a.Level s) : a.Level (s.resume cache longest entry) :=
  ⟨level.head, level.heap, level.strung, level.bits, level.words, level.calls, level.path⟩

/-- The calls that can be picked are in front of the first return. -/
theorem ready_before {done todo : List Ptr} {x : Int} (split : a.left s.seq = done ++ p :: todo)
    (isReturn : a.heap.matching p = none) (ready : Ready (a.leftMarks s.seq) x) :
    ∃ r ∈ done, a.heap.id r = x := by
  obtain ⟨front, back, isMarks, allCalls⟩ := ready
  have isRet : a.heap.mark p = .ret (a.heap.id p) := by simp [Heap.mark, isReturn]
  rw [leftMarks_eq, split, List.map_append, List.map_cons, isRet] at isMarks
  have isDone : .call x ∈ done.map a.heap.mark := by
    rcases List.append_eq_append_iff.mp isMarks with ⟨mid, isFront, isBack⟩ | ⟨mid, isDone, isBack⟩
    · cases mid with
      | nil => simp at isBack
      | cons mark mid =>
          rw [List.cons_append, List.cons.injEq] at isBack
          have isCall := allCalls mark (by simp [isFront])
          rw [← isBack.1] at isCall
          cases isCall
    · cases mid with
      | nil => simp at isBack
      | cons mark mid =>
          rw [List.cons_append, List.cons.injEq] at isBack
          simp [isDone, isBack.1]
  obtain ⟨r, inside, isMark⟩ := List.mem_map.mp isDone
  exact ⟨r, inside, by rw [← Heap.id_mark, isMark]; rfl⟩

end Level

section

variable {a} {s : Search V S} {cache cache' cache'' : Cache S}
  {longest longest' longest'' : Longest}

theorem Dead.mono {entry : CacheEntry S} (dead : a.Dead longest entry)
    (grows : longest.Grows longest') : a.Dead longest' entry := by
  obtain ⟨order, once, positive, bits, explored⟩ := dead
  exact ⟨order, once, positive, bits, explored.mono grows⟩

theorem Refuted.mono {x : Int} (refuted : a.Refuted longest s x)
    (grows : longest.Grows longest') : a.Refuted longest' s x :=
  fun t accepted => (refuted t accepted).mono grows

theorem CacheOk.mono {level : Nat} (cacheOk : a.CacheOk cache longest level)
    (spent : a.Spent cache cache' longest')
    (grows : longest.Grows longest') : a.CacheOk cache' longest' level := by
  intro hash e inside
  rcases spent hash e inside with before | dead
  · exact (cacheOk hash e before).imp_left fun dead => dead.mono grows
  · exact .inl dead

/-- What is in the cache after an entry was added. -/
theorem mem_add {entry e : CacheEntry S} {hash : BitVec 64} (inside : e ∈ cache.add entry hash) :
    e ∈ cache hash ∨ e = entry := by
  unfold Cache.add at inside
  by_cases same : hash = entry.linearized.hash
  · subst same
    simpa using inside
  · rw [Function.update_of_ne same] at inside
    exact .inl inside

theorem Spent.refl : a.Spent cache cache longest :=
  fun _ _ inside => .inl inside

theorem Spent.trans (first : a.Spent cache cache' longest')
    (second : a.Spent cache' cache'' longest'') (grows : longest'.Grows longest'') :
    a.Spent cache cache'' longest'' := by
  intro hash e inside
  rcases second hash e inside with before | dead
  · exact (first hash e before).imp_right fun dead => dead.mono grows
  · exact .inr dead

/-- Rounds at the same level, and then what follows from there. -/
theorem Explores.after {entry entry' : Option Ptr} {rounds : Nat}
    (goes : a.Goes rounds (s.resume cache longest entry) (s.resume cache' longest' entry'))
    (spent : a.Spent cache cache' longest') (grows : longest.Grows longest')
    (explores : a.Explores s cache' longest' entry') : a.Explores s cache longest entry := by
  cases explores with
  | found goes' level sound complete => exact .found (goes.trans goes') level sound complete
  | refuted goes' inside isReturn spent' sound grows' refuted =>
      exact .refuted (goes.trans goes') inside isReturn (spent.trans spent' grows') sound
        (grows.trans grows') refuted

/-- A call is tried, when the levels below are known to be explored.  All operations are picked,
or the search comes back to this level with the call refuted. -/
theorem Level.attempt {p q : Ptr} (level : a.Level s) {done todo : List Ptr}
    (split : a.left s.seq = done ++ p :: todo) (calls : ∀ r ∈ done, a.heap.matching r ≠ none)
    (isMatching : a.heap.matching p = some q) (cacheOk : a.CacheOk cache longest s.seq.length)
    (sound : a.Sound longest)
    (below : ∀ {s' : Search V S} {cache longest first rest}, a.Level s' →
      a.left s'.seq = first :: rest → (a.left s'.seq).length < (a.left s.seq).length →
      a.CacheOk cache longest s'.seq.length → a.Sound longest →
      a.Explores s' cache longest (some first)) :
    a.Explores s cache longest (some p) ∨ ∃ rounds cache' longest',
      a.Goes rounds (s.resume cache longest (some p))
        (s.resume cache' longest' (s.heap.next p)) ∧
      a.Spent cache cache' longest' ∧ a.Sound longest' ∧ longest.Grows longest' ∧
      a.Refuted longest' s (a.heap.id p) := by
  rcases level.trial split calls isMatching cacheOk with ⟨round, refuted⟩ |
      ⟨t, heap, linearized, accepted, round, restored, cleared, seq, level'⟩
  · exact .inr ⟨1, cache, longest, .next sound round .refl, .refl, sound, .refl, refuted⟩
  have inside : p ∈ a.left s.seq := by simp [split]
  have isCell : p ∈ a.cells := (Level.of_left inside).1
  have nextHead : heap.next s.headEntry = (a.left (s.deeper p heap linearized t).seq).head? :=
    level'.next_head
  rw [nextHead] at round
  cases isLeft : a.left (s.deeper p heap linearized t).seq with
  | nil => exact .inl (.found (.next sound round .refl) level'.resume sound isLeft)
  | cons first rest =>
      rw [isLeft] at round
      have smaller : (a.left (s.deeper p heap linearized t).seq).length <
          (a.left s.seq).length := by
        obtain ⟨mid, back, rfl⟩ := left_split split isMatching
        rw [seq, left_concat split isMatching, split]
        simp only [List.length_append, List.length_cons]
        omega
      have newEntry : ∃ order : List Int, order.Nodup ∧ (∀ x ∈ order, 0 ≤ x) ∧
          linearized.Represents order ∧ order = (s.deeper p heap linearized t).seq :=
        ⟨_, level'.seq_nodup, fun x isX => (level'.seq_numbered x isX).1, level'.bits, rfl⟩
      obtain ⟨order, once, positive, bits, isSeq⟩ := newEntry
      have cacheOk' : a.CacheOk (cache.add ⟨linearized, t⟩) longest
          (s.deeper p heap linearized t).seq.length := by
        intro hash e isElem
        rcases mem_add isElem with before | rfl
        · refine (cacheOk hash e before).imp_right fun ⟨order, once, positive, bits, small⟩ =>
            ⟨order, once, positive, bits, ?_⟩
          rw [seq, List.length_append]
          omega
        · exact .inr ⟨order, once, positive, bits, by rw [isSeq]⟩
      cases below level' isLeft smaller cacheOk' sound with
      | found goes level'' sound' complete =>
          exact .inl (.found (.next sound round goes) level'' sound' complete)
      | refuted goes inside' isReturn spent sound' grows refuted =>
          obtain ⟨longest'', popped, sound'', grows', covers⟩ :=
            level'.ascend isCell restored cleared inside' isReturn sound'
          have explored : a.Explored longest'' (s.seq ++ [a.heap.id p]) t := by
            rw [← seq]
            refine .of_ready ?_ covers fun x t' ready => ((refuted x ready).mono grows') t'
            rw [leftMarks_eq, isLeft]
            simp
          refine .inr ⟨_, _, longest'', .next sound round (goes.trans (.next sound' popped .refl)),
            fun hash e isElem => ?_, sound'', grows.trans grows', fun t' accepted' => ?_⟩
          · rcases spent hash e isElem with before | dead
            · rcases mem_add before with old | rfl
              · exact .inl old
              · exact .inr ⟨order, once, positive, bits, by rw [isSeq, seq]; exact explored⟩
            · exact .inr (dead.mono grows')
          · cases accepted.symm.trans accepted'
            exact explored

/-- The search of a level is over at a return. -/
theorem Explores.of_return {p : Ptr} {done todo : List Ptr}
    (split : a.left s.seq = done ++ p :: todo) (isReturn : a.heap.matching p = none)
    (sound : a.Sound longest) (refuted : ∀ r ∈ done, a.Refuted longest s (a.heap.id r)) :
    a.Explores s cache longest (some p) := by
  refine .refuted .refl (by simp [split]) isReturn .refl sound .refl fun x ready => ?_
  obtain ⟨r, isDone, rfl⟩ := Level.ready_before split isReturn ready
  exact refuted r isDone

/-- The search at a level, from a call in front of which the calls are refuted. -/
theorem Level.explore {p : Ptr} (level : a.Level s) {done todo : List Ptr}
    (split : a.left s.seq = done ++ p :: todo) (calls : ∀ r ∈ done, a.heap.matching r ≠ none)
    (cacheOk : a.CacheOk cache longest s.seq.length) (sound : a.Sound longest)
    (refuted : ∀ r ∈ done, a.Refuted longest s (a.heap.id r)) :
    a.Explores s cache longest (some p) := by
  -- the levels below have fewer entries left; at this level `todo` gets shorter
  induction size : (a.left s.seq).length using Nat.strong_induction_on
    generalizing s p cache longest done todo with
  | _ size below =>
  induction todo generalizing p cache longest done with
  | nil =>
      cases isMatching : a.heap.matching p with
      | none => exact .of_return split isMatching sound refuted
      | some q =>
          obtain ⟨mid, back, isBack⟩ := left_split split isMatching
          simp at isBack
  | cons next todo ih =>
      cases isMatching : a.heap.matching p with
      | none => exact .of_return split isMatching sound refuted
      | some q =>
          have tried := level.attempt split calls isMatching cacheOk sound
            fun level' isLeft smaller cacheOk' sound' =>
              below _ (size ▸ smaller) level' (isLeft.trans (List.nil_append _).symm)
                (by simp) cacheOk' sound' (by simp) rfl
          rcases tried with explores | ⟨rounds, cache', longest', goes, spent, sound', grows,
              refutedP⟩
          · exact explores
          have isNext : s.heap.next p = some next := by
            have strung : s.heap.toLinks.Strung ((a.head :: done) ++ p :: next :: todo) := by
              rw [List.cons_append, ← split]
              exact level.strung
            simpa using strung.next_eq
          rw [isNext] at goes
          have split' : a.left s.seq = (done ++ [p]) ++ next :: todo := by
            rw [split, List.append_assoc]
            rfl
          refine .after goes spent grows (ih split' ?_ (cacheOk.mono spent grows) sound' ?_)
          · intro r isDone
            rcases List.mem_append.mp isDone with before | isP
            · exact calls r before
            · rw [List.mem_singleton.mp isP, isMatching]
              simp
          · intro r isDone
            rcases List.mem_append.mp isDone with before | isP
            · exact (refuted r before).mono grows
            · rw [List.mem_singleton.mp isP]
              exact refutedP

end

end Arena

end GoLab.Porcupine

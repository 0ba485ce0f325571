import GoLab.Porcupine.Checker

/-!
# The list of nodes

`makeLinkedEntries` makes a node for every entry, the last entry first, and links them in the
order of the entries.  `lift` takes a call and its return out of the list, and `unlift` puts
the two back.
-/

namespace GoLab.Porcupine

variable {V : Type}

namespace Heap

variable {heap : Heap V} {head p q : Ptr} {front mid back : List Ptr}

/-- `lift` takes out the call and then the return. -/
theorem lift_eq {links links' : Links Ptr} (notLast : links.next p ≠ none)
    (isMatching : heap.matching p = some q) (first : heap.toLinks.unlink p = some links)
    (second : links.unlink q = some links') :
    heap.lift p = some { heap with toLinks := links' } := by
  obtain ⟨before, isPrev, first⟩ := Option.bind_eq_some_iff.mp first
  simp only at first
  cases isNext : (heap.toLinks.setNext before (heap.next p)).next p with
  | none =>
      rw [isNext] at first
      cases first
      exact absurd isNext notLast
  | some after =>
      rw [isNext] at first
      cases first
      simp only [lift, setNext, setPrev, isPrev, isNext, isMatching, Option.bind_eq_bind,
        Option.bind_some, second]
      rfl

/-- `unlift` puts the return back and then the call. -/
theorem unlift_eq {links links' : Links Ptr} (notLast : links'.next p ≠ none)
    (isMatching : heap.matching p = some q) (first : heap.toLinks.relink q = some links)
    (second : links.relink p = some links') :
    heap.unlift p = some { heap with toLinks := links' } := by
  obtain ⟨before, isPrev, second⟩ := Option.bind_eq_some_iff.mp second
  simp only at second
  cases isNext : (links.setNext before (some p)).next p with
  | none =>
      rw [isNext] at second
      cases second
      exact absurd isNext notLast
  | some after =>
      rw [isNext] at second
      cases second
      simp only [unlift, setNext, setPrev, isMatching, first, Option.bind_eq_bind,
        Option.bind_some, isPrev, isNext]
      rfl

/-- A call and its return are taken out of the list and put back. -/
theorem lift_unlift
    (strung : heap.toLinks.Strung (head :: (front ++ p :: (mid ++ q :: back))))
    (once : (head :: (front ++ p :: (mid ++ q :: back))).Nodup)
    (isMatching : heap.matching p = some q) :
    ∃ links, heap.lift p = some { heap with toLinks := links } ∧
      links.Strung (head :: (front ++ (mid ++ back))) ∧
      ({ heap with toLinks := links } : Heap V).unlift p = some heap := by
  have notLast : heap.next p ≠ none := by
    rw [← List.cons_append] at strung
    rw [strung.next_eq]
    cases mid <;> simp
  obtain ⟨links, first, strung', restored, sameNext, -⟩ := strung.unlink_cons once
  have once' : (head :: (front ++ (mid ++ q :: back))).Nodup :=
    once.sublist (((List.sublist_cons_self ..).append_left _).cons_cons _)
  rw [← List.append_assoc] at strung' once'
  obtain ⟨links', second, strung'', restored', -, -⟩ := strung'.unlink_cons once'
  refine ⟨links', lift_eq (sameNext ▸ notLast) isMatching first second, ?_, ?_⟩
  · simpa using strung''
  · exact unlift_eq notLast isMatching restored' restored

end Heap

/-! ## The nodes of a history -/

/-- The node of the first return of an operation. -/
def firstReturn : List (Entry V) → Int → Option Ptr
  | [], _ => none
  | elem :: rest, id =>
      if elem.kind = .returnEntry ∧ elem.id = id then some rest.length else firstReturn rest id

/-- The node of an entry is numbered by how many entries come after it. -/
structure Linking.Holds (l : Linking V) (entries : List (Entry V)) : Prop where
  size : l.heap.size = entries.length
  root : l.root = (List.range entries.length).reverse.head?
  strung : l.heap.toLinks.Strung (List.range entries.length).reverse
  first : ∀ p ∈ l.root, l.heap.prev p = none
  returns : l.returns = firstReturn entries
  value : ∀ front elem rest, entries = front ++ elem :: rest →
    l.heap.value rest.length = elem.value
  id : ∀ front elem rest, entries = front ++ elem :: rest → l.heap.id rest.length = elem.id
  matching : ∀ front elem rest, entries = front ++ elem :: rest → l.heap.matching rest.length =
    if elem.kind = .returnEntry then none else firstReturn rest elem.id

/-- The list with a new node in front. -/
theorem Heap.strung_insertBefore {heap : Heap V} {cells : List Ptr}
    (strung : heap.toLinks.Strung cells) (below : ∀ p ∈ cells, p < heap.size)
    (first : ∀ p ∈ cells.head?, heap.prev p = none) (once : cells.Nodup) (value : V)
    (matching : Option Ptr) (id : Int) :
    ((heap.alloc value matching id).insertBefore heap.size cells.head?).toLinks.Strung
        (heap.size :: cells) ∧
      ((heap.alloc value matching id).insertBefore heap.size cells.head?).prev heap.size = none := by
  cases cells with
  | nil =>
      refine ⟨⟨.singleton _, ?_⟩, ?_⟩
      · simp [insertBefore, alloc]
      · simp [insertBefore, alloc]
  | cons r cells =>
      have notNew : ∀ p ∈ r :: cells, p ≠ heap.size := fun p inside => (below p inside).ne
      have isFirst : (heap.alloc value matching id).prev r = none := by
        simp [alloc, notNew r (List.mem_cons_self ..), first r rfl]
      simp only [List.head?_cons, insertBefore, isFirst, setNext, setPrev]
      refine ⟨⟨?_, ?_⟩, ?_⟩
      · rw [List.isChain_cons_cons]
        refine ⟨⟨by simp, by simp⟩, Links.joined_frame strung.joined ?_ ?_⟩
        · intro p inside
          have other := notNew p (List.dropLast_subset _ inside)
          simp [alloc, other]
        · intro p inside
          have other := notNew p (List.mem_cons_of_mem _ inside)
          have notR : p ≠ r := by
            rintro rfl
            exact (List.nodup_cons.mp once).1 inside
          simp [alloc, other, notR]
      · intro p isLast
        have inCells : p ∈ (r :: cells).getLast? := by simpa using isLast
        have other := notNew p (List.mem_of_mem_getLast? inCells)
        simpa [alloc, other] using strung.ends p inCells
      · have other := notNew r (List.mem_cons_self ..)
        simp [alloc, Ne.symm other]

theorem Heap.insertBefore_data (heap : Heap V) (p : Ptr) (mark : Option Ptr) :
    (heap.insertBefore p mark).value = heap.value ∧ (heap.insertBefore p mark).id = heap.id ∧
      (heap.insertBefore p mark).matching = heap.matching ∧
      (heap.insertBefore p mark).size = heap.size := by
  unfold insertBefore
  split
  · exact ⟨rfl, rfl, rfl, rfl⟩
  · dsimp only
    split
    · exact ⟨rfl, rfl, rfl, rfl⟩
    · exact ⟨rfl, rfl, rfl, rfl⟩

theorem Linking.add_heap (l : Linking V) (elem : Entry V) :
    (l.add elem).heap = (l.heap.alloc elem.value
      (if elem.kind = .returnEntry then none else l.returns elem.id) elem.id).insertBefore
        l.heap.size l.root := by
  unfold add
  cases elem.kind <;> rfl

theorem Linking.add_root (l : Linking V) (elem : Entry V) :
    (l.add elem).root = some l.heap.size := by
  unfold add
  cases elem.kind <;> rfl

theorem Linking.add_returns (l : Linking V) (elem : Entry V) (id : Int) :
    (l.add elem).returns id =
      if elem.kind = .returnEntry ∧ elem.id = id then some l.heap.size else l.returns id := by
  unfold add
  cases elem.kind with
  | callEntry => simp
  | returnEntry => simp [Function.update_apply, eq_comm]

/-- What holds of the new node, and of those that were there, holds of all. -/
theorem forall_suffix_cons {α : Type} {first : α} {entries : List α} {p : α → List α → Prop}
    (here : p first entries)
    (others : ∀ front elem rest, entries = front ++ elem :: rest → p elem rest) :
    ∀ front elem rest, first :: entries = front ++ elem :: rest → p elem rest := by
  intro front elem rest split
  cases front with
  | nil =>
      cases split
      exact here
  | cons other front =>
      cases split
      exact others front elem rest rfl

theorem Linking.Holds.add {l : Linking V} {entries : List (Entry V)} (holds : l.Holds entries)
    (elem : Entry V) : (l.add elem).Holds (elem :: entries) := by
  have cells : (List.range (elem :: entries).length).reverse =
      l.heap.size :: (List.range entries.length).reverse := by
    rw [List.length_cons, List.range_succ, List.reverse_concat, holds.size]
  obtain ⟨strung, first⟩ := Heap.strung_insertBefore holds.strung
    (by simp [holds.size]) (by simpa [holds.root] using holds.first)
    (List.nodup_reverse.mpr List.nodup_range) elem.value
    (if elem.kind = .returnEntry then none else l.returns elem.id) elem.id
  rw [← holds.root] at strung first
  obtain ⟨value, id, matching, size⟩ := Heap.insertBefore_data (l.heap.alloc elem.value
    (if elem.kind = .returnEntry then none else l.returns elem.id) elem.id) l.heap.size l.root
  have notNew {front : List (Entry V)} {other : Entry V} {rest : List (Entry V)}
      (split : entries = front ++ other :: rest) : rest.length ≠ l.heap.size := by
    rw [holds.size, split]
    simp
    omega
  refine ⟨?_, ?_, ?_, ?_, ?_, ?_, ?_, ?_⟩
  · rw [add_heap, size]
    simp [Heap.alloc, holds.size]
  · rw [add_root, cells]
    rfl
  · rw [add_heap, cells]
    exact strung
  · intro p isRoot
    rw [add_root] at isRoot
    cases isRoot
    rw [add_heap]
    exact first
  · funext id
    rw [add_returns, holds.returns, holds.size, firstReturn]
  · refine forall_suffix_cons ?_ fun front other rest split => ?_
    · rw [add_heap, value, ← holds.size]
      simp [Heap.alloc]
    · rw [add_heap, value]
      simpa [Heap.alloc, notNew split] using holds.value front other rest split
  · refine forall_suffix_cons ?_ fun front other rest split => ?_
    · rw [add_heap, id, ← holds.size]
      simp [Heap.alloc]
    · rw [add_heap, id]
      simpa [Heap.alloc, notNew split] using holds.id front other rest split
  · refine forall_suffix_cons ?_ fun front other rest split => ?_
    · rw [add_heap, matching, ← holds.size, holds.returns]
      simp [Heap.alloc]
    · rw [add_heap, matching]
      simpa [Heap.alloc, notNew split] using holds.matching front other rest split

theorem makeLinkedEntries_holds [Inhabited V] (entries : List (Entry V)) :
    (makeLinkedEntries entries).Holds entries := by
  induction entries with
  | nil =>
      refine ⟨rfl, rfl, ⟨.nil, by simp⟩, by simp [makeLinkedEntries], rfl, ?_, ?_, ?_⟩
      all_goals simp
  | cons elem entries ih => exact ih.add elem

end GoLab.Porcupine

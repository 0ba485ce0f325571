import GoLab.Porcupine.KvModel
import GoLab.Porcupine.Search

/-!
# The verdict of `checkSingle`

In a well-formed history the operations are numbered from `0`, and each of them is called and
returns.  On such a history `checkSingle` returns after a bounded number of rounds, whenever
it is killed.  If nobody kills it, it returns `true` if and only if the history is
linearizable.
-/

namespace GoLab.Porcupine

open Marks

variable {V S : Type}

def Entry.mark (e : Entry V) : Mark Int :=
  match e.kind with
  | .callEntry => .call e.id
  | .returnEntry => .ret e.id

/-- The operations are numbered from `0`; each is called, and returns after that. -/
structure WellFormed (entries : List (Entry V)) : Prop where
  balanced : Balanced (entries.map Entry.mark)
  numbered : ∀ x : Int, .call x ∈ entries.map Entry.mark ↔
    0 ≤ x ∧ x < (entries.length / 2 : Nat)

/-- What an operation was called with, and what it returned. -/
def opValues (entries : List (Entry V)) (x : Int) : Option (V × V) := do
  let called ← entries.find? (·.mark = .call x)
  let returned ← entries.find? (·.mark = .ret x)
  return (called.value, returned.value)

/-- The model carries out an operation of the history. -/
def accept (model : FullModel V S) (entries : List (Entry V)) (s : S) (x : Int) : Option S := do
  let (input, output) ← opValues entries x
  let (ok, s') ← model.step s input output
  if ok then some s' else none

/-- `Step` does not panic on the values of the history, and states that `Equal` takes for equal
accept the same. -/
structure FullModel.Fits (model : FullModel V S) (entries : List (Entry V)) : Prop where
  total : ∀ x input output, opValues entries x = some (input, output) →
    ∀ s, (model.step s input output).isSome
  congruent : ∃ r : S → S → Prop, (∀ s t, model.equal s t = true → r s t) ∧
    ∀ s t x s', r s t → accept model entries s x = some s' →
      ∃ t', accept model entries t x = some t' ∧ r s' t'

/-- The values of a history of `KvModel`. -/
def KvTyped (entries : List (Entry KvValue)) : Prop :=
  ∀ e ∈ entries, match e.kind with
    | .callEntry => ∃ inp, e.value = .input inp
    | .returnEntry => ∃ out, e.value = .output out

theorem KvTyped.fits {entries : List (Entry KvValue)} (typed : KvTyped entries) :
    (fillDefault kvModel).Fits entries where
  total := fun x input output values s => by
    obtain ⟨called, isCalled, values⟩ := Option.bind_eq_some_iff.mp values
    obtain ⟨returned, isReturned, values⟩ := Option.bind_eq_some_iff.mp values
    cases values
    have callMark : called.mark = .call x := by simpa using List.find?_some isCalled
    have returnMark : returned.mark = .ret x := by simpa using List.find?_some isReturned
    have ofCall := typed called (List.mem_of_find?_eq_some isCalled)
    have ofReturn := typed returned (List.mem_of_find?_eq_some isReturned)
    unfold Entry.mark at callMark returnMark
    cases callKind : called.kind <;> cases returnKind : returned.kind <;>
      simp only [callKind, returnKind, reduceCtorEq] at callMark returnMark ofCall ofReturn
    obtain ⟨inp, isInput⟩ := ofCall
    obtain ⟨out, isOutput⟩ := ofReturn
    rw [isInput, isOutput]
    exact KvModel.step_isSome s inp out
  congruent := by
    refine ⟨Eq, fun s t equal => ?_, ?_⟩
    · simpa [fillDefault, kvModel, shallowEqual] using equal
    · rintro s t x s' rfl accepted
      exact ⟨s', accepted, rfl⟩

/-- An order of some of the operations which the model accepts. -/
def PartialLinearization (model : FullModel V S) (entries : List (Entry V)) (order : List Int) :
    Prop :=
  Ordering (entries.map Entry.mark) order ∧
    (order.foldlM (accept model entries) model.init).isSome

/-- The model accepts all operations in some order that keeps to the one in time. -/
def Linearizable (model : FullModel V S) (entries : List (Entry V)) : Prop :=
  ∃ order, PartialLinearization model entries order ∧
    ∀ x, .call x ∈ entries.map Entry.mark → x ∈ order

/-- A `get` that is called and returns while a `put` is under way. -/
def getDuringPut : List (Entry KvValue) :=
  [⟨.callEntry, .input ⟨1, [120], [97]⟩, 0, 0, 0⟩, ⟨.callEntry, .input ⟨0, [120], []⟩, 1, 1, 1⟩,
    ⟨.returnEntry, .output ⟨[97]⟩, 1, 2, 1⟩, ⟨.returnEntry, .output ⟨[]⟩, 0, 3, 0⟩]

theorem getDuringPut_wellFormed : WellFormed getDuringPut where
  balanced := by
    refine ⟨by decide, fun x called => ?_, fun x returned => ?_⟩
    · have isX : x = 0 ∨ x = 1 := by simpa [getDuringPut, Entry.mark] using called
      rcases isX with rfl | rfl <;> decide
    · have isX : x = 1 ∨ x = 0 := by simpa [getDuringPut, Entry.mark] using returned
      rcases isX with rfl | rfl <;> decide
  numbered := fun x => by
    have called : .call x ∈ getDuringPut.map Entry.mark ↔ x = 0 ∨ x = 1 := by
      simp [getDuringPut, Entry.mark]
    have count : getDuringPut.length / 2 = 2 := rfl
    rw [called, count]
    omega

theorem getDuringPut_typed : KvTyped getDuringPut := by
  simp [KvTyped, getDuringPut]

/-! ## The nodes -/

theorem Heap.length_eq {heap : Heap V} {cells : List Ptr} (strung : heap.toLinks.Strung cells) :
    heap.length cells.length cells.head? = cells.length := by
  induction cells with
  | nil => rfl
  | cons p cells ih =>
      have whole : heap.toLinks.Strung ([] ++ p :: cells) := strung
      have next : heap.next p = cells.head? := whole.next_eq
      rw [List.head?_cons, List.length_cons, Heap.length, next, ih strung.tail]

variable {entries : List (Entry V)}

/-- A function of the nodes that is known for the node of every entry. -/
theorem map_nodes {β : Type} {f : Ptr → β} {g : Entry V → β}
    (known : ∀ front elem rest, entries = front ++ elem :: rest → f rest.length = g elem) :
    (List.range entries.length).reverse.map f = entries.map g := by
  induction entries with
  | nil => rfl
  | cons elem entries ih =>
      have tail := ih fun front other rest split => known (elem :: front) other rest (by rw [split]; rfl)
      rw [List.length_cons, List.range_succ, List.reverse_concat, List.map_cons, tail,
        List.map_cons, known [] elem entries rfl]

theorem firstReturn_eq_some {rest : List (Entry V)} {x : Int} {q : Ptr}
    (found : firstReturn rest x = some q) :
    ∃ front returned back, rest = front ++ returned :: back ∧ returned.mark = .ret x ∧
      q = back.length := by
  induction rest with
  | nil => cases found
  | cons elem rest ih =>
      rw [firstReturn] at found
      split at found
      case isTrue isReturn =>
        cases found
        exact ⟨[], elem, rest, rfl, by simp [Entry.mark, isReturn.1, isReturn.2], rfl⟩
      case isFalse =>
        obtain ⟨front, returned, back, rfl, isReturn, isNode⟩ := ih found
        exact ⟨elem :: front, returned, back, rfl, isReturn, isNode⟩

theorem firstReturn_ne_none {rest : List (Entry V)} {x : Int}
    (returns : .ret x ∈ rest.map Entry.mark) : firstReturn rest x ≠ none := by
  induction rest with
  | nil => cases returns
  | cons elem rest ih =>
      rw [firstReturn]
      split
      case isTrue => simp
      case isFalse notReturn =>
        rcases List.mem_cons.mp returns with isElem | later
        · refine absurd ?_ notReturn
          unfold Entry.mark at isElem
          split at isElem
          · cases isElem
          case h_2 isReturn =>
            cases isElem
            exact ⟨isReturn, rfl⟩
        · exact ih later

/-- The nodes that the loop begins with. -/
structure Nodes (heap : Heap V) (entries : List (Entry V)) : Prop where
  value : ∀ front elem rest, entries = front ++ elem :: rest → heap.value rest.length = elem.value
  id : ∀ front elem rest, entries = front ++ elem :: rest → heap.id rest.length = elem.id
  matching : ∀ front elem rest, entries = front ++ elem :: rest → heap.matching rest.length =
    if elem.kind = .returnEntry then none else firstReturn rest elem.id

theorem exists_split {p : Nat} (isCell : p ∈ (List.range entries.length).reverse) :
    ∃ front elem rest, entries = front ++ elem :: rest ∧ rest.length = p := by
  have below : p < entries.length := by simpa using isCell
  have inside : entries.length - 1 - p < entries.length := by omega
  refine ⟨entries.take (entries.length - 1 - p), entries[entries.length - 1 - p],
    entries.drop (entries.length - 1 - p + 1), ?_, ?_⟩
  · rw [List.cons_getElem_drop_succ, List.take_append_drop]
  · rw [List.length_drop]
    omega

theorem mem_nodes {entries front rest : List (Entry V)} {elem : Entry V}
    (split : entries = front ++ elem :: rest) :
    rest.length ∈ (List.range entries.length).reverse := by
  rw [List.mem_reverse, List.mem_range, split]
  simp only [List.length_append, List.length_cons]
  omega

namespace Nodes

variable {heap : Heap V} {entries front rest : List (Entry V)} {elem : Entry V}

/-- A call has a return. -/
theorem mark_eq (nodes : Nodes heap entries) (wellFormed : WellFormed entries)
    (split : entries = front ++ elem :: rest) : heap.mark rest.length = elem.mark := by
  have matching := nodes.matching front elem rest split
  have id := nodes.id front elem rest split
  unfold Heap.mark Entry.mark
  cases kind : elem.kind with
  | returnEntry =>
      rw [kind, if_pos rfl] at matching
      rw [matching, id]
  | callEntry =>
      rw [kind, if_neg (by simp)] at matching
      have balanced := wellFormed.balanced
      have isCall : elem.mark = .call elem.id := by simp [Entry.mark, kind]
      rw [split, List.map_append, List.map_cons, isCall] at balanced
      obtain ⟨q, isMatching⟩ := Option.ne_none_iff_exists'.mp (firstReturn_ne_none balanced.mem_back)
      rw [matching, isMatching, id]

/-- The node of the return that belongs to a call. -/
theorem split_matching (nodes : Nodes heap entries) (split : entries = front ++ elem :: rest)
    {q : Ptr} (isMatching : heap.matching rest.length = some q) :
    elem.mark = .call elem.id ∧ ∃ front' returned back, entries = front' ++ returned :: back ∧
      returned.mark = .ret elem.id ∧ q = back.length := by
  rw [nodes.matching front elem rest split] at isMatching
  split at isMatching
  · cases isMatching
  case isFalse notReturn =>
    obtain ⟨mid, returned, back, rfl, isReturn, isNode⟩ := firstReturn_eq_some isMatching
    refine ⟨?_, front ++ elem :: mid, returned, back, by simp [split], isReturn, isNode⟩
    unfold Entry.mark
    split
    · rfl
    · contradiction

end Nodes

theorem WellFormed.id_lt {e : Entry V} (wellFormed : WellFormed entries) (inside : e ∈ entries) :
    0 ≤ e.id ∧ e.id < (entries.length / 2 : Nat) := by
  have isMark := List.mem_map_of_mem (f := Entry.mark) inside
  refine (wellFormed.numbered e.id).mp ?_
  unfold Entry.mark at isMark
  split at isMark
  · exact isMark
  · exact wellFormed.balanced.called _ isMark

/-- The entry with a mark. -/
theorem WellFormed.find_eq {e : Entry V} (wellFormed : WellFormed entries) (inside : e ∈ entries) :
    entries.find? (·.mark = e.mark) = some e := by
  cases found : entries.find? (·.mark = e.mark) with
  | none => simpa using List.find?_eq_none.mp found e inside
  | some other =>
      have same : other.mark = e.mark := by simpa using List.find?_some found
      rw [List.inj_on_of_nodup_map wellFormed.balanced.once (List.mem_of_find?_eq_some found) inside
        same]

/-- The two entries of an operation. -/
theorem WellFormed.opValues_eq {called returned : Entry V} {x : Int}
    (wellFormed : WellFormed entries) (isCall : called ∈ entries) (callMark : called.mark = .call x)
    (isReturn : returned ∈ entries) (returnMark : returned.mark = .ret x) :
    opValues entries x = some (called.value, returned.value) := by
  have first := wellFormed.find_eq isCall
  have second := wellFormed.find_eq isReturn
  rw [callMark] at first
  rw [returnMark] at second
  simp [opValues, first, second]

section

variable [Inhabited V] (model : FullModel V S) (entries : List (Entry V))

theorem start_nodes : Nodes (Search.start model entries).heap entries := by
  have holds := makeLinkedEntries_holds entries
  obtain ⟨value, id, matching, -⟩ := Heap.insertBefore_data
    ((makeLinkedEntries entries).heap.alloc default none (-1))
    (makeLinkedEntries entries).heap.size (makeLinkedEntries entries).root
  have notHead {front : List (Entry V)} {other : Entry V} {rest : List (Entry V)}
      (split : entries = front ++ other :: rest) :
      rest.length ≠ (makeLinkedEntries entries).heap.size := by
    rw [holds.size, split]
    simp
    omega
  refine ⟨fun front elem rest split => ?_, fun front elem rest split => ?_,
    fun front elem rest split => ?_⟩
  · rw [Search.start, value]
    simpa [Heap.alloc, notHead split] using holds.value front elem rest split
  · rw [Search.start, id]
    simpa [Heap.alloc, notHead split] using holds.id front elem rest split
  · rw [Search.start, matching]
    simpa [Heap.alloc, notHead split] using holds.matching front elem rest split

theorem start_strung : (Search.start model entries).heap.toLinks.Strung
    (entries.length :: (List.range entries.length).reverse) := by
  have holds := makeLinkedEntries_holds entries
  obtain ⟨strung, -⟩ := Heap.strung_insertBefore holds.strung
    (by simp [holds.size]) (by simpa [holds.root] using holds.first)
    (List.nodup_reverse.mpr List.nodup_range) default none (-1)
  rw [← holds.root, holds.size] at strung
  rw [Search.start, holds.size]
  exact strung

theorem start_head : (Search.start model entries).headEntry = entries.length :=
  (makeLinkedEntries_holds entries).size

theorem start_entry : (Search.start model entries).entry =
    (List.range entries.length).reverse.head? :=
  (makeLinkedEntries_holds entries).root

/-- The number of operations that `checkSingle` computes. -/
theorem start_count : (makeLinkedEntries entries).heap.length (makeLinkedEntries entries).heap.size
    (makeLinkedEntries entries).root / 2 = entries.length / 2 := by
  have holds := makeLinkedEntries_holds entries
  have count := Heap.length_eq holds.strung
  rw [List.length_reverse, List.length_range] at count
  rw [holds.size, holds.root, count]

end

/-- What the loop of `checkSingle` begins with. -/
def arena [Inhabited V] {model : FullModel V S} {entries : List (Entry V)}
    (wellFormed : WellFormed entries) (fits : model.Fits entries) (computePartial : Bool) :
    Arena V S where
  model := model
  computePartial := computePartial
  heap := (Search.start model entries).heap
  head := entries.length
  cells := (List.range entries.length).reverse
  n := entries.length / 2
  accept := accept model entries
  balanced := by
    rw [map_nodes fun front elem rest split => (start_nodes model entries).mark_eq wellFormed split]
    exact wellFormed.balanced
  outside := by simp
  matched := fun p isCell q isMatching => by
    obtain ⟨front, elem, rest, split, rfl⟩ := exists_split isCell
    obtain ⟨-, front', returned, back, split', isReturn, rfl⟩ :=
      (start_nodes model entries).split_matching split isMatching
    refine ⟨mem_nodes split', ?_⟩
    rw [(start_nodes model entries).mark_eq wellFormed split', isReturn,
      (start_nodes model entries).id front elem rest split]
  numbered := fun p isCell => by
    obtain ⟨front, elem, rest, split, rfl⟩ := exists_split isCell
    rw [(start_nodes model entries).id front elem rest split]
    exact wellFormed.id_lt (by simp [split])
  accepts := fun p isCell q isMatching s => by
    obtain ⟨front, elem, rest, split, rfl⟩ := exists_split isCell
    obtain ⟨isCall, front', returned, back, split', isReturn, rfl⟩ :=
      (start_nodes model entries).split_matching split isMatching
    have values := wellFormed.opValues_eq (by simp [split]) isCall (by simp [split']) isReturn
    obtain ⟨⟨ok, s'⟩, stepped⟩ := Option.isSome_iff_exists.mp (fits.total _ _ _ values s)
    rw [(start_nodes model entries).value front elem rest split,
      (start_nodes model entries).value front' returned back split',
      (start_nodes model entries).id front elem rest split]
    exact ⟨ok, s', stepped, by simp [accept, values, stepped]⟩
  congruent := fits.congruent

/-! ## The loop -/

namespace Arena

variable {a : Arena V S} {s u : Search V S}

/-- What is returned at the end of a search that nobody stops. -/
inductive Verdict (a : Arena V S) : Bool → Longest → Prop where
  | complete {order : List Int} {t : S} (picks : Picks a.accept a.marks a.model.init order [] t) :
      Verdict a true (List.replicate a.n (some order))
  | refuted {longest : Longest} (sound : a.Sound longest)
      (explored : a.Explored longest [] a.model.init) : Verdict a false longest

/-- A round in which the loop is found killed. -/
theorem iterate_killed {s' : Search V S}
    (round : s.iterate a.model a.computePartial false = some (.again s')) :
    s.iterate a.model a.computePartial true = some (.returned false s.longest) := by
  unfold Search.iterate at round ⊢
  split
  case isTrue empty =>
    rw [if_pos empty] at round
    cases round
  case isFalse => rfl

/-- Rounds that lead to this verdict if nobody stops the search. -/
def Heads (a : Arena V S) (ok : Bool) (longest : Longest) (rounds : Nat) (s : Search V S) : Prop :=
  a.Verdict ok longest ∧ ∃ u, a.Goes rounds s u ∧
    ∀ killed, u.iterate a.model a.computePartial killed = some (.returned ok longest)

/-- A round of a search that heads for a verdict: the verdict is returned, or the search is found
killed, or it goes on. -/
theorem Heads.iterate {ok : Bool} {longest : Longest} {rounds : Nat}
    (heads : a.Heads ok longest rounds s) (killed : Bool) :
    s.iterate a.model a.computePartial killed = some (.returned ok longest) ∨
    (killed = true ∧ a.Sound s.longest ∧
      s.iterate a.model a.computePartial killed = some (.returned false s.longest)) ∨
    ∃ rounds' s', rounds = rounds' + 1 ∧ a.Heads ok longest rounds' s' ∧
      s.iterate a.model a.computePartial killed = some (.again s') := by
  obtain ⟨verdict, u, goes, returns⟩ := heads
  cases goes with
  | refl => exact .inl (returns killed)
  | @next rounds _ s' _ sound round onward =>
      cases killed with
      | true => exact .inr (.inl ⟨rfl, sound, iterate_killed round⟩)
      | false => exact .inr (.inr ⟨rounds, s', rfl, ⟨verdict, u, onward, returns⟩, round⟩)

/-- The loop of a search that heads for a verdict. -/
theorem Heads.loop {ok : Bool} {longest : Longest} {rounds : Nat}
    (heads : a.Heads ok longest rounds s) (kill : Nat → Bool) {fuel : Nat} (enough : rounds < fuel)
    (k : Nat) :
    s.loop a.model a.computePartial kill fuel k = .returned ok longest ∨
      ∃ longest', a.Sound longest' ∧ (∃ i, kill i = true) ∧
        s.loop a.model a.computePartial kill fuel k = .returned false longest' := by
  induction fuel generalizing s rounds k with
  | zero => omega
  | succ fuel ih =>
      rw [Search.loop]
      rcases heads.iterate (kill k) with returns | ⟨killed, sound, returns⟩ |
          ⟨rounds', s', isRounds, heads', again⟩
      · exact .inl (by rw [returns])
      · exact .inr ⟨s.longest, sound, ⟨k, killed⟩, by rw [returns]⟩
      · rw [again]
        exact ih heads' (by omega) (k + 1)

/-- The search of a whole history. -/
theorem Level.search (level : a.Level s) (noCalls : s.calls = [])
    (atFirst : s.entry = (a.left s.seq).head?) (cacheOk : a.CacheOk s.cache s.longest s.seq.length)
    (sound : a.Sound s.longest) :
    ∃ rounds ok longest, a.Heads ok longest rounds s := by
  have finish {u : Search V S} (level : a.Level u) (sound : a.Sound u.longest)
      (complete : a.left u.seq = []) : a.Verdict true (List.replicate u.longest.length (some u.seq)) ∧
      ∀ killed, u.iterate a.model a.computePartial killed =
        some (.returned true (List.replicate u.longest.length (some u.seq))) := by
    have picks := level.path
    rw [leftMarks_eq, complete, List.map_nil] at picks
    refine ⟨sound.size ▸ .complete picks, fun killed => ?_⟩
    rw [Search.iterate, if_pos (by rw [level.next_head, complete]; rfl)]
  have noSeq : s.seq = [] := by rw [Search.seq, noCalls, List.map_nil]
  cases isLeft : a.left s.seq with
  | nil =>
      obtain ⟨verdict, returns⟩ := finish level sound isLeft
      exact ⟨0, _, _, verdict, s, .refl, returns⟩
  | cons first rest =>
      have isEntry : s.resume s.cache s.longest (some first) = s := by
        rw [Search.resume, ← List.head?_cons (l := rest), ← isLeft, ← atFirst]
      have split : a.left s.seq = [] ++ first :: rest := isLeft
      have explores := level.explore split (by simp) cacheOk sound (by simp)
      cases explores with
      | found goes level' sound' complete =>
          obtain ⟨verdict, returns⟩ := finish level' sound' complete
          exact ⟨_, _, _, verdict, _, isEntry ▸ goes, returns⟩
      | @refuted rounds cache longest q goes inside isReturn spent sound' grows refuted =>
          have explored : a.Explored longest [] a.model.init := by
            have isInit : a.model.init = s.state := by
              have legal := (level.path.ordering a.balanced).2.1
              rw [noSeq] at legal
              exact Option.some.inj legal
            rw [noSeq] at refuted isLeft
            rw [isInit]
            refine .of_ready ?_ (by simp) fun x t ready accepted => ?_
            · rw [leftMarks_eq, isLeft]
              simp
            · have explored := refuted x ready t accepted
              rwa [noSeq] at explored
          refine ⟨_, _, _, .refuted sound' explored, _, isEntry ▸ goes, fun killed => ?_⟩
          have unfinished : (s.resume cache longest (some q)).heap.next
              (s.resume cache longest (some q)).headEntry ≠ none := level.unfinished inside
          cases killed with
          | true => rw [Search.iterate, if_neg unfinished]; rfl
          | false =>
              rw [Search.iterate, if_neg unfinished]
              simp [Search.resume, noCalls, level.data.2.2, isReturn]

/-- The order is complete, or there is no complete order. -/
theorem Verdict.complete_iff {ok : Bool} {longest : Longest} (verdict : a.Verdict ok longest) :
    ok = true ↔ ∃ order t, Picks a.accept a.marks a.model.init order [] t := by
  cases verdict with
  | complete picks => exact iff_of_true rfl ⟨_, _, picks⟩
  | refuted sound explored =>
      refine iff_of_false (by simp) ?_
      rintro ⟨order, t, picks⟩
      rw [← leftMarks_nil] at picks
      exact (explored order [] t picks).1 rfl

end Arena

section

variable [Inhabited V] {model : FullModel V S} {entries : List (Entry V)}
  (wellFormed : WellFormed entries) (fits : model.Fits entries) (computePartial : Bool)

theorem arena_marks : (arena wellFormed fits computePartial).marks = entries.map Entry.mark :=
  map_nodes fun _ _ _ split => (start_nodes model entries).mark_eq wellFormed split

theorem start_level :
    (arena wellFormed fits computePartial).Level (Search.start model entries) where
  head := start_head model entries
  heap := ⟨(Search.start model entries).heap.toLinks, rfl⟩
  strung := by
    have noSeq : (Search.start model entries).seq = [] := rfl
    rw [noSeq, Arena.left_nil]
    exact start_strung model entries
  bits := fun i => by simp [Search.start, Search.seq, Bitset.newBitset_mem]
  words := by
    rw [Search.start, start_count]
    rfl
  calls := by simp [Search.start]
  path := by
    have noSeq : (Search.start model entries).seq = [] := rfl
    rw [noSeq, Arena.leftMarks_nil]
    exact .nil

theorem start_sound : (arena wellFormed fits computePartial).Sound
    (Search.start model entries).longest where
  size := by
    rw [Search.start, start_count]
    exact List.length_replicate
  legal := fun i seq isSeq => by
    rw [Search.start, List.getElem?_replicate] at isSeq
    split at isSeq <;> cases isSeq

/-- `checkSingle` heads for a verdict from the start. -/
theorem start_heads : ∃ rounds ok longest,
    (arena wellFormed fits computePartial).Heads ok longest rounds (Search.start model entries) := by
  have noSeq : (Search.start model entries).seq = [] := rfl
  refine (start_level wellFormed fits computePartial).search rfl ?_ ?_
    (start_sound wellFormed fits computePartial)
  · rw [noSeq, Arena.left_nil]
    exact start_entry model entries
  · intro hash entry inside
    cases inside

/-- The run of `checkSingle`, and what it returns when it is found killed. -/
theorem checkSingle_run :
    ∃ rounds ok longest, (arena wellFormed fits computePartial).Verdict ok longest ∧
      ∀ kill fuel, rounds ≤ fuel →
        checkSingle model entries computePartial kill fuel = .returned ok longest ∨
        ∃ longest', (arena wellFormed fits computePartial).Sound longest' ∧
          (∃ i, kill i = true) ∧
          checkSingle model entries computePartial kill fuel = .returned false longest' := by
  obtain ⟨rounds, ok, longest, heads⟩ := start_heads wellFormed fits computePartial
  exact ⟨rounds + 1, ok, longest, heads.1, fun kill fuel enough => heads.loop kill enough 0⟩

/-- What can be picked is a partial linearization. -/
theorem picks_iff {order : List Int} :
    (∃ rest t, Picks (arena wellFormed fits computePartial).accept
        (arena wellFormed fits computePartial).marks model.init order rest t) ↔
      PartialLinearization model entries order := by
  constructor
  · rintro ⟨rest, t, picks⟩
    obtain ⟨ordering, legal, -⟩ := picks.ordering Arena.balanced_marks
    rw [arena_marks] at ordering
    exact ⟨ordering, Option.isSome_iff_exists.mpr ⟨t, legal⟩⟩
  · rintro ⟨ordering, legal⟩
    obtain ⟨t, legal⟩ := Option.isSome_iff_exists.mp legal
    rw [← arena_marks wellFormed fits computePartial] at ordering
    exact ⟨_, t, .of_ordering ordering legal⟩

/-- What can be picked to the end is a linearization. -/
theorem picks_nil_iff :
    (∃ order t, Picks (arena wellFormed fits computePartial).accept
        (arena wellFormed fits computePartial).marks model.init order [] t) ↔
      Linearizable model entries := by
  constructor
  · rintro ⟨order, t, picks⟩
    refine ⟨order, (picks_iff wellFormed fits computePartial).mp ⟨_, t, picks⟩, ?_⟩
    obtain ⟨-, -, rest⟩ := picks.ordering Arena.balanced_marks
    rw [arena_marks] at rest
    exact wellFormed.balanced.filter_eq_nil.mp rest.symm
  · rintro ⟨order, isPartial, all⟩
    obtain ⟨rest, t, picks⟩ := (picks_iff wellFormed fits computePartial).mpr isPartial
    obtain ⟨-, -, isRest⟩ := picks.ordering Arena.balanced_marks
    rw [arena_marks, wellFormed.balanced.filter_eq_nil.mpr all] at isRest
    exact ⟨order, t, isRest ▸ picks⟩

/-- The sequences in `longest`. -/
theorem legal_of_sound {longest : Longest}
    (sound : (arena wellFormed fits computePartial).Sound longest) {i : Nat} {seq : List Int}
    (isSeq : longest[i]? = some (some seq)) :
    (i : Int) ∈ seq ∧ PartialLinearization model entries seq := by
  obtain ⟨inside, picks⟩ := sound.legal i seq isSeq
  exact ⟨inside, (picks_iff wellFormed fits computePartial).mp picks⟩

theorem sound_of_verdict {ok : Bool} {longest : Longest}
    (verdict : (arena wellFormed fits computePartial).Verdict ok longest) :
    (arena wellFormed fits computePartial).Sound longest := by
  cases verdict with
  | refuted sound explored => exact sound
  | @complete order t picks =>
      refine ⟨List.length_replicate, fun i seq isSeq => ?_⟩
      obtain ⟨-, -, rest⟩ := picks.ordering Arena.balanced_marks
      rw [arena_marks] at rest
      rw [List.getElem?_replicate] at isSeq
      split at isSeq
      case isTrue below =>
        cases isSeq
        refine ⟨?_, [], t, picks⟩
        refine wellFormed.balanced.filter_eq_nil.mp rest.symm _ ?_
        exact (wellFormed.numbered i).mpr ⟨Int.natCast_nonneg i, Int.ofNat_lt.mpr below⟩
      case isFalse => cases isSeq

/-- With `computePartial`, `longest` has a longest sequence for every operation. -/
theorem covers_of_verdict {computePartial : Bool} (partials : computePartial = true) {ok : Bool}
    {longest : Longest} (verdict : (arena wellFormed fits computePartial).Verdict ok longest)
    {order : List Int} (isPartial : PartialLinearization model entries order) {x : Int}
    (inside : x ∈ order) :
    ∃ seq, longest[x.toNat]? = some (some seq) ∧ x ∈ seq ∧ order.length ≤ seq.length := by
  obtain ⟨isIndex, below⟩ := (wellFormed.numbered x).mp (isPartial.1.called x inside)
  obtain ⟨seq, isSeq, longer⟩ : longest.Covers x order.length := by
    obtain ⟨rest, t, picks⟩ := (picks_iff wellFormed fits computePartial).mpr isPartial
    cases verdict with
    | refuted sound explored =>
        rw [← Arena.leftMarks_nil] at picks
        simpa using (explored order rest t picks).2 partials x (by simpa using inside)
    | @complete whole t' picks' =>
        refine ⟨whole, ?_, ?_⟩
        · rw [List.getElem?_replicate, if_pos]
          exact (Int.toNat_lt isIndex).mpr below
        · obtain ⟨-, -, isRest⟩ := picks'.ordering Arena.balanced_marks
          rw [arena_marks] at isRest
          have all := wellFormed.balanced.filter_eq_nil.mp isRest.symm
          exact (List.subperm_of_subset isPartial.1.once
            fun y isY => all y (isPartial.1.called y isY)).length_le
  have isX := (legal_of_sound wellFormed fits computePartial
    (sound_of_verdict wellFormed fits computePartial verdict) isSeq).1
  rw [Int.toNat_of_nonneg isIndex] at isX
  exact ⟨seq, isSeq, isX, longer⟩

end

section

variable [Inhabited V] {model : FullModel V S} {entries : List (Entry V)}

/-- `checkSingle` returns when nobody stops it, and its answer is whether the history is
linearizable. -/
theorem checkSingle_linearizable (wellFormed : WellFormed entries) (fits : model.Fits entries)
    (computePartial : Bool) : ∃ rounds ok longest,
    (∀ fuel, rounds ≤ fuel →
      checkSingle model entries computePartial (fun _ => false) fuel = .returned ok longest) ∧
    (ok = true ↔ Linearizable model entries) := by
  obtain ⟨rounds, ok, longest, verdict, run⟩ := checkSingle_run wellFormed fits computePartial
  refine ⟨rounds, ok, longest, fun fuel enough => ?_, ?_⟩
  · rcases run (fun _ => false) fuel enough with returns | ⟨_, _, ⟨_, killed⟩, _⟩
    · exact returns
    · cases killed
  · exact verdict.complete_iff.trans (picks_nil_iff wellFormed fits computePartial)

theorem checkSingle_getDuringPut : ∃ rounds ok longest,
    (∀ fuel, rounds ≤ fuel → checkSingle (fillDefault kvModel) getDuringPut true
      (fun _ => false) fuel = .returned ok longest) ∧
    (ok = true ↔ Linearizable (fillDefault kvModel) getDuringPut) :=
  checkSingle_linearizable getDuringPut_wellFormed getDuringPut_typed.fits true

/-- Whenever `checkSingle` is killed, it returns; `true` only for a linearizable history, and only
partial linearizations in `longest`. -/
theorem checkSingle_killed (wellFormed : WellFormed entries) (fits : model.Fits entries)
    (computePartial : Bool) : ∃ rounds, ∀ kill fuel, rounds ≤ fuel → ∃ ok longest,
    checkSingle model entries computePartial kill fuel = .returned ok longest ∧
    (ok = true → Linearizable model entries) ∧
    ∀ (i : Nat) (seq : List Int), longest[i]? = some (some seq) →
      (i : Int) ∈ seq ∧ PartialLinearization model entries seq := by
  obtain ⟨rounds, ok, longest, verdict, run⟩ := checkSingle_run wellFormed fits computePartial
  refine ⟨rounds, fun kill fuel enough => ?_⟩
  rcases run kill fuel enough with returns | ⟨longest', sound, -, returns⟩
  · refine ⟨ok, longest, returns, ?_, fun i seq isSeq => ?_⟩
    · exact (verdict.complete_iff.trans (picks_nil_iff wellFormed fits computePartial)).mp
    · exact legal_of_sound wellFormed fits computePartial
        (sound_of_verdict wellFormed fits computePartial verdict) isSeq
  · exact ⟨false, longest', returns, by simp,
      fun i seq isSeq => legal_of_sound wellFormed fits computePartial sound isSeq⟩

theorem checkSingle_getDuringPut_killed : ∃ rounds, ∀ kill fuel, rounds ≤ fuel → ∃ ok longest,
    checkSingle (fillDefault kvModel) getDuringPut true kill fuel = .returned ok longest ∧
    (ok = true → Linearizable (fillDefault kvModel) getDuringPut) ∧
    ∀ (i : Nat) (seq : List Int), longest[i]? = some (some seq) →
      (i : Int) ∈ seq ∧ PartialLinearization (fillDefault kvModel) getDuringPut seq :=
  checkSingle_killed getDuringPut_wellFormed getDuringPut_typed.fits true

/-- When `computePartial` is set and nobody stops `checkSingle`, `longest` has for every operation
a longest partial linearization with the operation in it. -/
theorem checkSingle_longest (wellFormed : WellFormed entries) (fits : model.Fits entries) :
    ∃ rounds ok longest,
      (∀ fuel, rounds ≤ fuel →
        checkSingle model entries true (fun _ => false) fuel = .returned ok longest) ∧
      ∀ order, PartialLinearization model entries order → ∀ x ∈ order, ∃ seq,
        longest[x.toNat]? = some (some seq) ∧ x ∈ seq ∧ PartialLinearization model entries seq ∧
          order.length ≤ seq.length := by
  obtain ⟨rounds, ok, longest, verdict, run⟩ := checkSingle_run wellFormed fits true
  refine ⟨rounds, ok, longest, fun fuel enough => ?_, fun order isPartial x inside => ?_⟩
  · rcases run (fun _ => false) fuel enough with returns | ⟨_, _, ⟨_, killed⟩, _⟩
    · exact returns
    · cases killed
  obtain ⟨seq, isSeq, isX, longer⟩ := covers_of_verdict wellFormed fits rfl verdict isPartial inside
  exact ⟨seq, isSeq, isX, (legal_of_sound wellFormed fits true
    (sound_of_verdict wellFormed fits true verdict) isSeq).2, longer⟩

end

theorem checkSingle_getDuringPut_longest : ∃ rounds ok longest,
    (∀ fuel, rounds ≤ fuel → checkSingle (fillDefault kvModel) getDuringPut true
      (fun _ => false) fuel = .returned ok longest) ∧
    ∀ order, PartialLinearization (fillDefault kvModel) getDuringPut order → ∀ x ∈ order, ∃ seq,
      longest[x.toNat]? = some (some seq) ∧ x ∈ seq ∧
        PartialLinearization (fillDefault kvModel) getDuringPut seq ∧
        order.length ≤ seq.length :=
  checkSingle_longest getDuringPut_wellFormed getDuringPut_typed.fits

end GoLab.Porcupine

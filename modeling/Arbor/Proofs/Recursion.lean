import Arbor.Proofs.WellFormed

/-!
# Runs of the search for recursion

The search keeps the kinds that it has seen and a frontier of kinds to look at. Every turn takes
the first kind off the frontier; it is passed over if it was seen, and entered if not. The search
stops when it finds the kind it started from or when the frontier is empty.

A turn that enters a kind moves what is pending there to the frontier, so frontier and pending kinds
together get fewer with every turn, whatever cycles there are. Everything that a search sees is
reachable from its start. The fault of a signature is the first kind that lies on a cycle.
-/

namespace Arbor

open Relation

/-- What a search has seen, and what it has still to look at. -/
structure SearchState where
  seen : List KindId
  frontier : List KindId

namespace Signature

/-- One turn of the search for `start`. -/
inductive Turn (σ : Signature) (start : KindId) : SearchState → SearchState → Prop where
  | pass {seen rest : List KindId} {next : KindId} : next ≠ start → next ∈ seen →
      Turn σ start ⟨seen, next :: rest⟩ ⟨seen, rest⟩
  | enter {seen rest : List KindId} {next : KindId} : next ≠ start → next ∉ seen →
      Turn σ start ⟨seen, next :: rest⟩ ⟨next :: seen, (σ.initialKinds next).reverse ++ rest⟩

/-- The search stops in this state with this answer. -/
inductive Stops (start : KindId) : SearchState → Bool → Prop where
  | exhausted {seen : List KindId} : Stops start ⟨seen, []⟩ false
  | found {seen rest : List KindId} : Stops start ⟨seen, start :: rest⟩ true

/-- The state in which a search begins. -/
def entry (σ : Signature) (start : KindId) : SearchState :=
  ⟨[start], (σ.initialKinds start).reverse⟩

variable {σ : Signature} {start : KindId}

/-! ## Termination -/

/-- How many turns a search has left at most. -/
def turnsLeft (σ : Signature) (s : SearchState) : Nat :=
  s.frontier.length + σ.pending s.seen

theorem Turn.turnsLeft_lt {s s' : SearchState} (h : σ.Turn start s s') :
    σ.turnsLeft s' < σ.turnsLeft s := by
  cases h with
  | pass _ _ =>
    simp only [turnsLeft, List.length_cons]
    omega
  | enter _ hnew =>
    -- the initial kinds of the entered kind move from what is pending to the frontier
    have hpending := pending_cons (σ := σ) hnew
    simp only [turnsLeft, List.length_append, List.length_reverse, List.length_cons]
    omega

theorem wellFounded_turn (σ : Signature) (start : KindId) :
    WellFounded fun s' s => σ.Turn start s s' :=
  Subrelation.wf Turn.turnsLeft_lt (measure σ.turnsLeft).wf

/-- The search takes turns until it stops, and answers accordingly. -/
theorem run_of_search {budget : Nat} {seen frontier : List KindId} {found : Bool}
    (h : σ.search start budget seen frontier = some found) :
    ∃ s, ReflTransGen (σ.Turn start) ⟨seen, frontier⟩ s ∧ Stops start s found := by
  fun_induction σ.search start budget seen frontier with
  | case1 _ seen =>
    cases h
    exact ⟨⟨seen, []⟩, .refl, .exhausted⟩
  | case2 => cases h
  | case3 _ seen rest =>
    cases h
    exact ⟨⟨seen, start :: rest⟩, .refl, .found⟩
  | case4 _ _ _ _ hne hseen ih =>
    obtain ⟨s, hrun, hstops⟩ := ih h
    exact ⟨s, .head (.pass hne hseen) hrun, hstops⟩
  | case5 _ _ _ _ hne hnew ih =>
    obtain ⟨s, hrun, hstops⟩ := ih h
    exact ⟨s, .head (.enter hne hnew) hrun, hstops⟩

theorem exists_run (σ : Signature) (start : KindId) :
    ∃ s found, σ.search start σ.initialCount [start] (σ.initialKinds start).reverse = some found ∧
      ReflTransGen (σ.Turn start) (σ.entry start) s ∧ Stops start s found := by
  obtain ⟨found, hfound⟩ := Option.ne_none_iff_exists'.1 (search_initial_ne_none (σ := σ) start)
  obtain ⟨s, hrun, hstops⟩ := run_of_search hfound
  exact ⟨s, found, hfound, hrun, hstops⟩

/-! ## What a search sees -/

/-- All kinds that the search has met are reachable from `start`. -/
def Reached (σ : Signature) (start : KindId) (s : SearchState) : Prop :=
  ∀ k, k ∈ s.seen ∨ k ∈ s.frontier → ReflTransGen σ.Starts start k

theorem reached_entry (σ : Signature) (start : KindId) : σ.Reached start (σ.entry start) := by
  rintro k (hk | hk)
  · rw [List.mem_singleton.1 hk]
  · exact .single (List.mem_reverse.1 hk)

theorem Turn.reached {s s' : SearchState} (h : σ.Turn start s s') (hs : σ.Reached start s) :
    σ.Reached start s' := by
  cases h with
  | pass _ _ =>
    rintro k (hk | hk)
    · exact hs k (.inl hk)
    · exact hs k (.inr (List.mem_cons_of_mem _ hk))
  | @enter seen rest next _ _ =>
    have hnext : ReflTransGen σ.Starts start next := hs next (.inr List.mem_cons_self)
    rintro k (hk | hk)
    · rcases List.mem_cons.1 hk with rfl | hk
      · exact hnext
      · exact hs k (.inl hk)
    · rcases List.mem_append.1 hk with hk | hk
      · exact hnext.tail (List.mem_reverse.1 hk)
      · exact hs k (.inr (List.mem_cons_of_mem _ hk))

theorem reached_of_run {s s' : SearchState} (h : ReflTransGen (σ.Turn start) s s')
    (hs : σ.Reached start s) : σ.Reached start s' := by
  induction h with
  | refl => exact hs
  | tail _ hturn ih => exact hturn.reached ih

/-! ## The fault -/

/-- The fault names the first kind on a cycle. -/
theorem recursive?_eq_some {e : Error} :
    σ.recursive? = some e ↔ ∃ i k, σ.kinds[i]? = some k ∧ TransGen σ.Starts i i ∧
      (∀ j < i, ¬ TransGen σ.Starts j j) ∧ e = .schema k.name .recursiveInitial := by
  -- `find?` says of the kinds before the one it finds that they do not pass its test
  have hearlier : ∀ j, (!σ.isRecursive j) = true ↔ ¬ TransGen σ.Starts j j := by
    intro j
    rw [← isRecursive_iff, Bool.not_eq_true, Bool.not_eq_true']
  unfold recursive?
  simp only [Option.map_eq_some_iff, List.find?_eq_some_iff_getElem, Prod.exists]
  constructor
  · rintro ⟨k, id, ⟨hrec, i, hi, hget, hfirst⟩, rfl⟩
    rw [List.getElem_zipIdx, Prod.mk.injEq, Nat.zero_add] at hget
    obtain ⟨rfl, rfl⟩ := hget
    refine ⟨i, _, List.getElem?_eq_getElem _, isRecursive_iff.1 hrec, fun j hj => ?_, rfl⟩
    have hnot := hfirst j hj
    rw [List.getElem_zipIdx, Nat.zero_add] at hnot
    exact (hearlier j).1 hnot
  · rintro ⟨i, k, hk, hcycle, hfirst, rfl⟩
    obtain ⟨hi, rfl⟩ := List.getElem?_eq_some_iff.1 hk
    refine ⟨σ.kinds[i], i, ⟨isRecursive_iff.2 hcycle, i, by simpa using hi, by simp, ?_⟩, rfl⟩
    intro j hj
    rw [List.getElem_zipIdx, Nat.zero_add]
    exact (hearlier j).2 (hfirst j hj)

/-- Where all initial nodes are accepted by their fields, recursion is the only fault left. -/
theorem initialFault?_of_accepted (h : ∀ k ∈ σ.kinds, ∀ f ∈ k.fields, ∀ a i, f.accepts = some a →
    f.initialKind = some i → σ.accepts a i = true) : σ.initialFault? = σ.recursive? := by
  have hnone : σ.kinds.findSome? σ.unacceptedInitial? = none :=
    List.findSome?_eq_none_iff.2 fun k hk => unacceptedInitial?_eq_none.2 (h k hk)
  rw [initialFault?, hnone]
  rfl

/-- Where all initial nodes are accepted by their fields, the search for recursion is exact. From
every kind it comes to an end and has seen only kinds that are reachable from there. No fault is
found just if no kind leads back to itself, and otherwise the fault is reported under the name of
the first kind that does. -/
theorem recursion_search_exact (haccepted : ∀ k ∈ σ.kinds, ∀ f ∈ k.fields, ∀ a i,
    f.accepts = some a → f.initialKind = some i → σ.accepts a i = true) :
    (∀ start, (WellFounded fun s' s => σ.Turn start s s') ∧
      (∃ s found, σ.search start σ.initialCount [start] (σ.initialKinds start).reverse =
          some found ∧
        ReflTransGen (σ.Turn start) (σ.entry start) s ∧ Stops start s found) ∧
      ∀ s, ReflTransGen (σ.Turn start) (σ.entry start) s →
        ∀ k, k ∈ s.seen ∨ k ∈ s.frontier → ReflTransGen σ.Starts start k) ∧
    (σ.initialFault? = none ↔ ∀ i, ¬ TransGen σ.Starts i i) ∧
    ∀ e, σ.initialFault? = some e ↔ ∃ i k, σ.kinds[i]? = some k ∧ TransGen σ.Starts i i ∧
      (∀ j < i, ¬ TransGen σ.Starts j j) ∧ e = .schema k.name .recursiveInitial := by
  rw [initialFault?_of_accepted haccepted]
  refine ⟨fun start => ⟨wellFounded_turn σ start, exists_run σ start, fun s hrun => ?_⟩,
    recursive?_eq_none, fun e => recursive?_eq_some⟩
  exact reached_of_run hrun (reached_entry σ start)

/-- A root leads to a ring by two ways, and twice from the ring to the link that closes it. -/
def ringSignature : Signature :=
  (Schema.ofTemplates
    [{ name := "Root", fields := [
        (FieldDecl.child "left" "Side").startingWith (.newNode "Side"),
        (FieldDecl.child "right" "Ring").startingWith (.newNode "Ring")] },
     { name := "Side", fields := [(FieldDecl.child "ring" "Ring").startingWith (.newNode "Ring")] },
     { name := "Ring", fields := [
        (FieldDecl.child "first" "Link").startingWith (.newNode "Link"),
        (FieldDecl.child "second" "Link").startingWith (.newNode "Link")] },
     { name := "Link", fields := [
        (FieldDecl.child "back" "Ring").startingWith (.newNode "Ring")] }]).signature

/-- The search from the root goes around the ring and stops without finding the root again. The ring
is the first kind that leads back to itself. -/
theorem recursion_search_exact_ringSignature :
    (∀ k ∈ ringSignature.kinds, ∀ f ∈ k.fields, ∀ a i, f.accepts = some a →
      f.initialKind = some i → ringSignature.accepts a i = true) ∧
    (∃ s, ReflTransGen (ringSignature.Turn 0) (ringSignature.entry 0) s ∧ Stops 0 s false) ∧
    ringSignature.initialFault? = some (.schema "Ring" .recursiveInitial) ∧
    ∃ i k, ringSignature.kinds[i]? = some k ∧ k.name = "Ring" ∧
      TransGen ringSignature.Starts i i ∧ ∀ j < i, ¬ TransGen ringSignature.Starts j j := by
  have haccepted : ∀ k ∈ ringSignature.kinds, ∀ f ∈ k.fields, ∀ a i, f.accepts = some a →
      f.initialKind = some i → ringSignature.accepts a i = true := by
    have hnone : ∀ k ∈ ringSignature.kinds, ringSignature.unacceptedInitial? k = none := by decide
    exact fun k hk => unacceptedInitial?_eq_none.1 (hnone k hk)
  have hfault : ringSignature.initialFault? = some (.schema "Ring" .recursiveInitial) := by decide
  have hsearch : ringSignature.search 0 ringSignature.initialCount [0]
      (ringSignature.initialKinds 0).reverse = some false := by decide
  obtain ⟨hsearches, -, hnames⟩ := recursion_search_exact haccepted
  obtain ⟨s, found, hfound, hrun, hstops⟩ := (hsearches 0).2.1
  cases hsearch.symm.trans hfound
  obtain ⟨i, k, hk, hcycle, hfirst, he⟩ := (hnames _).1 hfault
  have hname : k.name = "Ring" := (Error.schema.inj he).1.symm
  exact ⟨haccepted, ⟨s, hrun, hstops⟩, hfault, i, k, hk, hname, hcycle, hfirst⟩

end Signature

end Arbor

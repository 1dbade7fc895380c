import Mathlib.Logic.Function.Basic
import Mathlib.Logic.Relation
import Mathlib.Logic.ExistsUnique

/-!
# Forests of parent pointers

Some elements are live, each has at most one parent, and each of a family of heads
points at the top of one chain. The heads cover the live elements when every live
element lies on the chain of exactly one head. Pushing a new element on a chain and
popping its top are the two operations; the converse rules say that every other way
of adding or removing one element leaves no such family of chains.
-/

namespace LinuxLikeOS.ParentForest

open Function Relation

variable {α ι : Type*}

/-- One parent link. -/
def Link (next : α → Option α) (a b : α) : Prop := next a = some b

/-- Following parent links from the first element reaches the second. -/
def Above (next : α → Option α) : α → α → Prop := ReflTransGen (Link next)

structure Forest (live : α → Prop) (next : α → Option α) (head : ι → Option α) : Prop where
  head_live : ∀ {t a}, head t = some a → live a
  next_live : ∀ {a b}, live a → next a = some b → live b
  acyclic : ∀ {a}, live a → ¬ TransGen (Link next) a a
  covered : ∀ {a}, live a → ∃! t, ∃ h, head t = some h ∧ Above next h a

namespace Forest

variable {live : α → Prop} {next next' : α → Option α} {head : ι → Option α} {a b : α} {s t : ι}

theorem above_live (forest : Forest live next head) (alive : live a) (above : Above next a b) :
    live b := by
  induction above with
  | refl => exact alive
  | tail _ link ih => exact forest.next_live ih link

/-- The chain that covers an element is the only one that reaches it. -/
theorem same_head (forest : Forest live next head) (alive : live a)
    (first : ∃ h, head s = some h ∧ Above next h a)
    (second : ∃ h, head t = some h ∧ Above next h a) : s = t :=
  (forest.covered alive).unique first second

theorem not_self_link (forest : Forest live next head) (alive : live a) : next a ≠ some a :=
  fun link => forest.acyclic alive (TransGen.single link)

/-- An element that is not the top of its chain has a live child. -/
theorem top_or_child (forest : Forest live next head) (alive : live a) :
    (∃ t, head t = some a) ∨ ∃ child, live child ∧ child ≠ a ∧ next child = some a := by
  obtain ⟨t, ⟨h, top, above⟩, _⟩ := forest.covered alive
  cases above.cases_tail with
  | inl same => exact Or.inl ⟨t, same ▸ top⟩
  | inr lower =>
      obtain ⟨child, reaches, link⟩ := lower
      have childLive := forest.above_live (forest.head_live top) reaches
      refine Or.inr ⟨child, childLive, ?_, link⟩
      rintro rfl
      exact forest.not_self_link childLive link

end Forest

section Agreement

variable {live : α → Prop} {next next' : α → Option α} {a b : α}

/-- Links of live elements that stay among the live ones decide what lies above. -/
theorem above_congr (closed : ∀ {a b}, live a → next a = some b → live b)
    (agree : ∀ {a}, live a → next' a = next a) (alive : live a) :
    Above next' a b ↔ Above next a b := by
  constructor
  · intro above
    suffices Above next a b ∧ live b from this.1
    induction above with
    | refl => exact ⟨.refl, alive⟩
    | tail _ link ih =>
        have same : next _ = some _ := (agree ih.2).symm.trans link
        exact ⟨ih.1.tail same, closed ih.2 same⟩
  · intro above
    suffices Above next' a b ∧ live b from this.1
    induction above with
    | refl => exact ⟨.refl, alive⟩
    | tail _ link ih => exact ⟨ih.1.tail ((agree ih.2).trans link), closed ih.2 link⟩

theorem transGen_congr (closed : ∀ {a b}, live a → next a = some b → live b)
    (agree : ∀ {a}, live a → next' a = next a) (alive : live a) :
    TransGen (Link next') a b ↔ TransGen (Link next) a b := by
  rw [TransGen.head'_iff, TransGen.head'_iff]
  refine exists_congr fun middle => ?_
  constructor
  · rintro ⟨link, above⟩
    have same : next a = some middle := (agree alive).symm.trans link
    exact ⟨same, (above_congr closed agree (closed alive same)).mp above⟩
  · rintro ⟨link, above⟩
    exact ⟨(agree alive).trans link, (above_congr closed agree (closed alive link)).mpr above⟩

end Agreement

namespace Forest

variable {live : α → Prop} {next : α → Option α} {head : ι → Option α} {a b : α} {s t : ι}

/-- While the links of live elements stay, a live head reaches what its own chain covers. -/
theorem head_of_agree (forest : Forest live next head) {next' : α → Option α} {h : α}
    (agree : ∀ {x}, live x → next' x = next x) (start : head s = some h) (above : Above next' h a)
    (here : ∃ h, head t = some h ∧ Above next h a) : s = t := by
  have alive := forest.head_live start
  have reaches := (above_congr forest.next_live agree alive).mp above
  exact forest.same_head (forest.above_live alive reaches) ⟨h, start, reaches⟩ here

/-- Whatever the heads become, an element with a live child cannot be removed alone. -/
theorem not_without_child (forest : Forest live next head) {next' : α → Option α}
    {head' : ι → Option α} {live' : α → Prop} {child : α} (childLive : live child)
    (link : next child = some a) (kept : ∀ x, live x → x ≠ a → live' x ∧ next' x = next x)
    (gone : ¬ live' a) : ¬ Forest live' next' head' := by
  intro after
  have different : child ≠ a := by
    rintro rfl
    exact forest.not_self_link childLive link
  obtain ⟨stays, same⟩ := kept child childLive different
  exact gone (after.next_live stays (same.trans link))

variable [DecidableEq ι]

/-- Remove the top of one chain. -/
theorem pop (forest : Forest live next head) (top : head t = some a) :
    Forest (fun x => live x ∧ x ≠ a) next (update head t (next a)) := by
  have alive := forest.head_live top
  have here : ∃ h, head t = some h ∧ Above next h a := ⟨a, top, .refl⟩
  constructor
  · intro s x start
    rcases eq_or_ne s t with rfl | same
    · rw [update_self] at start
      refine ⟨forest.next_live alive start, ?_⟩
      rintro rfl
      exact forest.not_self_link alive start
    · rw [update_of_ne same] at start
      refine ⟨forest.head_live start, ?_⟩
      rintro rfl
      exact same (forest.same_head alive ⟨x, start, .refl⟩ here)
  · rintro x y ⟨xLive, different⟩ link
    refine ⟨forest.next_live xLive link, ?_⟩
    rintro rfl
    obtain ⟨s, ⟨h, start, above⟩, _⟩ := forest.covered xLive
    have same := forest.same_head alive ⟨h, start, above.tail link⟩ here
    subst same
    obtain rfl := Option.some.inj (top.symm.trans start)
    exact forest.acyclic alive (TransGen.tail' above link)
  · rintro x ⟨xLive, _⟩
    exact forest.acyclic xLive
  · rintro x ⟨xLive, different⟩
    have covers_iff : ∀ s, (∃ h, update head t (next a) s = some h ∧ Above next h x) ↔
        ∃ h, head s = some h ∧ Above next h x := by
      intro s
      rcases eq_or_ne s t with rfl | same
      · rw [update_self]
        constructor
        · rintro ⟨h, link, above⟩
          exact ⟨a, top, ReflTransGen.head link above⟩
        · rintro ⟨h, start, above⟩
          obtain rfl := Option.some.inj (top.symm.trans start)
          cases above.cases_head with
          | inl same => exact absurd same.symm different
          | inr lower => exact lower
      · rw [update_of_ne same]
    simpa only [covers_iff] using forest.covered xLive

/-- Removing a live element and its head's entry is right only at the top of that chain. -/
theorem pop_iff (forest : Forest live next head) (alive : live a) :
    Forest (fun x => live x ∧ x ≠ a) next (update head t (next a)) ↔ head t = some a := by
  refine ⟨fun after => ?_, fun top => forest.pop top⟩
  by_contra notTop
  rcases forest.top_or_child alive with ⟨s, start⟩ | ⟨child, childLive, _, link⟩
  · have different : s ≠ t := by
      rintro rfl
      exact notTop start
    have dead := after.head_live (t := s) (a := a) (by rw [update_of_ne different]; exact start)
    exact dead.2 rfl
  · exact forest.not_without_child childLive link (fun x xLive other => ⟨⟨xLive, other⟩, rfl⟩)
      (fun dead => dead.2 rfl) after

variable [DecidableEq α]

theorem agree_of_not_live (value : Option α) (fresh : ¬ live a) {x : α} (alive : live x) :
    update next a value x = next x :=
  update_of_ne (by rintro rfl; exact fresh alive) _ _

/-- Put a new element on top of one chain. -/
theorem push (forest : Forest live next head) (fresh : ¬ live a) :
    Forest (fun x => x = a ∨ live x) (update next a (head t)) (update head t (some a)) := by
  have agree : ∀ {x}, live x → update next a (head t) x = next x :=
    fun alive => agree_of_not_live _ fresh alive
  have above_iff : ∀ {x y}, live x → (Above (update next a (head t)) x y ↔ Above next x y) :=
    fun alive => above_congr forest.next_live agree alive
  have top_next : update next a (head t) a = head t := update_self ..
  constructor
  · intro s x top
    rcases eq_or_ne s t with rfl | same
    · rw [update_self] at top
      exact Or.inl (Option.some.inj top).symm
    · rw [update_of_ne same] at top
      exact Or.inr (forest.head_live top)
  · rintro x y (rfl | alive) link
    · rw [top_next] at link
      exact Or.inr (forest.head_live link)
    · rw [agree alive] at link
      exact Or.inr (forest.next_live alive link)
  · rintro x (rfl | alive) cycle
    · obtain ⟨middle, link, above⟩ := TransGen.head'_iff.mp cycle
      have middleLive := forest.head_live (top_next.symm.trans link)
      exact fresh (forest.above_live middleLive ((above_iff middleLive).mp above))
    · exact forest.acyclic alive ((transGen_congr forest.next_live agree alive).mp cycle)
  · rintro x (rfl | alive)
    · refine ⟨t, ⟨x, update_self .., .refl⟩, ?_⟩
      rintro s ⟨h, top, above⟩
      by_contra other
      rw [update_of_ne other] at top
      have topLive := forest.head_live top
      exact fresh (forest.above_live topLive ((above_iff topLive).mp above))
    · have different : x ≠ a := fun same => fresh (same ▸ alive)
      have covers_iff : ∀ s, (∃ h, update head t (some a) s = some h ∧
          Above (update next a (head t)) h x) ↔ ∃ h, head s = some h ∧ Above next h x := by
        intro s
        rcases eq_or_ne s t with rfl | same
        · rw [update_self]
          constructor
          · rintro ⟨h, top, above⟩
            obtain rfl := Option.some.inj top
            cases above.cases_head with
            | inl here => exact absurd here.symm different
            | inr lower =>
                obtain ⟨h, link, above⟩ := lower
                have top := top_next.symm.trans link
                exact ⟨h, top, (above_iff (forest.head_live top)).mp above⟩
          · rintro ⟨h, top, above⟩
            have rest := (above_iff (forest.head_live top)).mpr above
            exact ⟨a, rfl, ReflTransGen.head (top_next.trans top) rest⟩
        · rw [update_of_ne same]
          refine exists_congr fun h => and_congr_right fun top => ?_
          exact above_iff (forest.head_live top)
      simpa only [covers_iff] using forest.covered alive

/-- A new root covers no other element. -/
theorem not_above_new_root (fresh : a ≠ b) : ¬ Above (update next b none) b a := by
  intro above
  cases above.cases_head with
  | inl here => exact fresh here.symm
  | inr lower =>
      obtain ⟨middle, link, _⟩ := lower
      rw [Link, update_self] at link
      cases link

/-- Starting a new chain at a head is right only where the head was free. -/
theorem push_root_iff (forest : Forest live next head) (fresh : ¬ live a) :
    Forest (fun x => x = a ∨ live x) (update next a none) (update head t (some a)) ↔
      head t = none := by
  constructor
  · intro after
    by_contra occupied
    obtain ⟨h, top⟩ := Option.ne_none_iff_exists'.mp occupied
    have alive := forest.head_live top
    obtain ⟨s, ⟨first, start, above⟩, _⟩ := after.covered (Or.inr alive)
    rcases eq_or_ne s t with rfl | same
    · rw [update_self] at start
      obtain rfl := Option.some.inj start
      refine not_above_new_root ?_ above
      rintro rfl
      exact fresh alive
    · rw [update_of_ne same] at start
      exact same (forest.head_of_agree (agree_of_not_live none fresh) start above ⟨h, top, .refl⟩)
  · intro free
    have pushed := forest.push (t := t) fresh
    rwa [free] at pushed

/-! A live element is removed and a new one is put at a head. The new element may take the
removed one's place. -/

section Replacement

variable {value : Option α} {heads : ι → Option α} {c : α} {d : ι}

/-- Only the top of a chain can be removed: its child would keep a dead parent or sit under
the new element. -/
theorem removed_is_top (forest : Forest live next head) (alive : live a) (fresh : ¬ (live c ∧ c ≠ a))
    (after : Forest (fun x => x = c ∨ (live x ∧ x ≠ a)) (update next c value) (update heads d (some c))) :
    ∃ t, head t = some a := by
  rcases forest.top_or_child alive with found | ⟨child, childLive, different, link⟩
  · exact found
  · exfalso
    have childNotNew : child ≠ c := fun same => fresh (same ▸ ⟨childLive, different⟩)
    have childLink : update next c value child = some a := by rw [update_of_ne childNotNew, link]
    have aLive := after.next_live (Or.inr ⟨childLive, different⟩) childLink
    obtain rfl : a = c := aLive.resolve_right fun dead => dead.2 rfl
    obtain ⟨u, ⟨h, start, above⟩, _⟩ := after.covered (Or.inr ⟨childLive, different⟩)
    have atNew : ∃ h, update heads d (some a) d = some h ∧ Above (update next a value) h a :=
      ⟨a, update_self .., .refl⟩
    obtain rfl := after.same_head (Or.inl rfl) ⟨h, start, above.tail childLink⟩ atNew
    rw [update_self] at start
    obtain rfl := Option.some.inj start
    exact after.acyclic (Or.inl rfl) (TransGen.tail' above childLink)

/-- The head that still names the removed element is the one the new element is put at. -/
theorem renamed_head
    (after : Forest (fun x => x = c ∨ (live x ∧ x ≠ a)) (update next c value) (update heads d (some c)))
    (here : heads t = some a) : t = d := by
  by_contra other
  have kept : update heads d (some c) t = some a := by rw [update_of_ne other, here]
  have aLive := after.head_live kept
  obtain rfl : a = c := aLive.resolve_right fun dead => dead.2 rfl
  exact other (after.same_head (Or.inl rfl) ⟨a, kept, .refl⟩ ⟨a, update_self .., .refl⟩)

/-- The new element does not get the removed one as its parent. -/
theorem new_parent_ne
    (after : Forest (fun x => x = c ∨ (live x ∧ x ≠ a)) (update next c value) (update heads d (some c))) :
    value ≠ some a := by
  intro same
  have link : update next c value c = some a := by rw [update_self, same]
  have aLive := after.next_live (Or.inl rfl) link
  obtain rfl : a = c := aLive.resolve_right fun dead => dead.2 rfl
  exact after.not_self_link (Or.inl rfl) link

/-- With a new root in place of the removed one, a head that was cleared covered nothing else. -/
theorem cleared_head_free (forest : Forest live next head) (root : next a = none)
    (notTop : head s ≠ some a) (fresh : ¬ (live c ∧ c ≠ a))
    (after : Forest (fun x => x = c ∨ (live x ∧ x ≠ a)) (update next c none)
      (update (update head s none) d (some c))) : head s = none := by
  by_contra occupied
  obtain ⟨b, top⟩ := Option.ne_none_iff_exists'.mp occupied
  have bLive := forest.head_live top
  have different : b ≠ a := fun same => notTop (same ▸ top)
  have agree : ∀ {x}, live x → update next c none x = next x := by
    intro x xLive
    rcases eq_or_ne x c with rfl | same
    · have isA : x = a := by
        by_contra other
        exact fresh ⟨xLive, other⟩
      rw [update_self, isA, root]
    · rw [update_of_ne same]
  obtain ⟨u, ⟨h, start, above⟩, _⟩ := after.covered (Or.inr ⟨bLive, different⟩)
  rcases eq_or_ne u d with rfl | atNew
  · rw [update_self] at start
    obtain rfl := Option.some.inj start
    refine not_above_new_root ?_ above
    rintro rfl
    exact fresh ⟨bLive, different⟩
  · rw [update_of_ne atNew] at start
    rcases eq_or_ne u s with rfl | atRemoved
    · rw [update_self] at start
      cases start
    · rw [update_of_ne atRemoved] at start
      exact atRemoved (forest.head_of_agree agree start above ⟨b, top, .refl⟩)

/-- A new chain put at head `d` after a live root was removed under the wrong head `s`. -/
theorem misplaced_root_iff (forest : Forest live next head) (alive : live a)
    (root : next a = none) (notTop : head s ≠ some a) (fresh : ¬ (live c ∧ c ≠ a))
    (fromRoot : Prop) [Decidable fromRoot] :
    Forest (fun x => x = c ∨ (live x ∧ x ≠ a))
        (update next c (if fromRoot then none else update head s none d))
        (update (update head s none) d (some c)) ↔
      fromRoot ∧ head s = none ∧ head d = some a := by
  constructor
  · intro after
    obtain ⟨t, here⟩ := forest.removed_is_top alive fresh after
    have apart : t ≠ s := by
      rintro rfl
      exact notTop here
    have still : update head s none t = some a := by rw [update_of_ne apart, here]
    obtain rfl : t = d := renamed_head after still
    have isRoot : fromRoot := by
      by_contra nested
      have parent := new_parent_ne after
      rw [if_neg nested] at parent
      exact parent still
    rw [if_pos isRoot] at after
    exact ⟨isRoot, forest.cleared_head_free root notTop fresh after, here⟩
  · rintro ⟨isRoot, free, top⟩
    have popped := forest.pop top
    rw [root] at popped
    have pushed := popped.push (a := c) (t := d) fresh
    rw [update_self, update_idem] at pushed
    have unchanged : update head s none = head := by rw [← free, update_eq_self]
    rwa [if_pos isRoot, unchanged]

end Replacement

end Forest

end LinuxLikeOS.ParentForest

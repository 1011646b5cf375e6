/-
**The highest scores of a row.**

* `descending`, `highest` — scores with their places, from the highest on, equal ones in the order of their places.
* `shown`, `chosen` — the scores above the bottom one, and the places of the highest of these.
* `chosen_congr` — the chosen places depend on the scores that are shown only.
* `length_chosen`, `chosen_before` — how many are chosen, and that what is chosen precedes what is not.
-/

import TinyDSV41.Lib.Segments
import TinyDSV41.Lib.Scatter

namespace TinyDSV41.Lib

open List OrderDual

variable {Item Value : Type} [LinearOrder Value]

/-- `torch.argsort(descending=True, stable=True)`, with the scores. -/
def descending (scores : List Value) : List (Value × ℕ) := sortPlaces toDual scores

/-- The first of the scores in descending order. -/
def highest (count : ℕ) (scores : List Value) : List (Value × ℕ) := (descending scores).take count

/-- A score with its place precedes another one: it is higher, or as high and at a lower place. -/
def precedes (one two : Value × ℕ) : Prop := two.1 < one.1 ∨ one.1 = two.1 ∧ one.2 ≤ two.2

theorem descending_sorted (scores : List Value) : (descending scores).Pairwise precedes :=
  sortPlaces_sorted toDual scores

theorem descending_perm (scores : List Value) : (descending scores).Perm scores.zipIdx :=
  sortPlaces_perm toDual scores

theorem precedes_place {one two : Value × ℕ} (low : precedes one two) (high : precedes two one) : one.2 = two.2 := by
  rcases low with less | ⟨same, low⟩
  · rcases high with more | ⟨same, -⟩
    · exact absurd more less.asymm
    · exact absurd same less.ne
  · rcases high with more | ⟨-, high⟩
    · exact absurd same more.ne
    · exact le_antisymm low high

theorem take_filter {kept : Item → Bool} {items : List Item} (count : ℕ)
    (first : items.Pairwise fun one two => kept two = true → kept one = true) :
    (items.take count).filter kept = (items.filter kept).take count := by
  induction items generalizing count with
  | nil => rw [take_nil, filter_nil, take_nil]
  | cons item items known =>
    obtain ⟨here, later⟩ := pairwise_cons.mp first
    rcases count with _ | count
    · rfl
    · rw [take_succ_cons]
      by_cases keep : kept item = true
      · rw [filter_cons_of_pos keep, filter_cons_of_pos keep, take_succ_cons, known count later]
      · have none_ : items.filter kept = [] :=
          filter_eq_nil_iff.mpr fun other mem more => keep (here other mem more)
        rw [filter_cons_of_neg keep, filter_cons_of_neg keep, known count later, none_, take_nil,
          take_nil]

variable [OrderBot Value]

def isShown (entry : Value × ℕ) : Bool := decide (⊥ < entry.1)

def shown (scores : List Value) : List (Value × ℕ) := scores.zipIdx.filter isShown

def chosen (count : ℕ) (scores : List Value) : List ℕ := ((highest count scores).filter isShown).map Prod.snd

def ranked (scores : List Value) : List (Value × ℕ) := (descending scores).filter isShown

variable {scores one two : List Value} {count : ℕ}

theorem highest_shown (count : ℕ) (scores : List Value) :
    (highest count scores).filter isShown = (ranked scores).take count := by
  refine take_filter count ((descending_sorted scores).imp fun {high low} before above => ?_)
  unfold isShown at *
  rcases before with less | ⟨same, -⟩
  · exact decide_eq_true (bot_le.trans_lt less)
  · rw [same]
    exact above

theorem ranked_perm (scores : List Value) : (ranked scores).Perm (shown scores) := (descending_perm scores).filter _

theorem ranked_sorted (scores : List Value) : (ranked scores).Pairwise precedes := (descending_sorted scores).filter _

theorem mem_shown {entry : Value × ℕ} : entry ∈ shown scores ↔ scores[entry.2]? = some entry.1 ∧ ⊥ < entry.1 := by
  unfold shown
  rw [mem_filter]
  exact and_congr mk_mem_zipIdx_iff_getElem? decide_eq_true_iff

theorem shown_place {here there : Value × ℕ} (one : here ∈ shown scores) (two : there ∈ shown scores)
    (same : here.2 = there.2) : here = there := by
  have first := (mem_shown.mp one).1
  rw [same] at first
  exact Prod.ext (Option.mem_unique first (mem_shown.mp two).1) same

/-- **The order of the shown scores is determined by what is shown.** -/
theorem ranked_congr (same : shown one = shown two) : ranked one = ranked two := by
  have perm : (ranked one).Perm (ranked two) := by
    refine (ranked_perm one).trans ?_
    rw [same]
    exact (ranked_perm two).symm
  refine perm.eq_of_pairwise (fun here there first second low high => ?_) (ranked_sorted one) (ranked_sorted two)
  have left := (ranked_perm one).mem_iff.mp first
  rw [same] at left
  exact shown_place left ((ranked_perm two).mem_iff.mp second) (precedes_place low high)

theorem chosen_eq (count : ℕ) (scores : List Value) : chosen count scores = ((ranked scores).take count).map Prod.snd := by
  unfold chosen
  rw [highest_shown]

/-- **The chosen places depend on what is shown only.** -/
theorem chosen_congr (count : ℕ) (same : shown one = shown two) : chosen count one = chosen count two := by
  rw [chosen_eq, chosen_eq, ranked_congr same]

theorem length_chosen (count : ℕ) (scores : List Value) :
    (chosen count scores).length = min count (shown scores).length := by
  rw [chosen_eq, length_map, length_take, (ranked_perm scores).length_eq]

theorem chosen_min (count : ℕ) (scores : List Value) : chosen (min count scores.length) scores = chosen count scores := by
  have all : (descending scores).length = scores.length := by
    rw [(descending_perm scores).length_eq, length_zipIdx]
  unfold chosen highest
  rw [← all, ← take_eq_take_min]

theorem chosen_nodup (count : ℕ) (scores : List Value) : (chosen count scores).Nodup := by
  have places : (scores.zipIdx.map Prod.snd).Nodup := by
    rw [zipIdx_map_snd]
    exact nodup_range'
  have all : ((descending scores).map Prod.snd).Nodup := ((descending_perm scores).map Prod.snd).nodup_iff.mpr places
  exact all.sublist ((filter_sublist.trans (take_sublist _ _)).map Prod.snd)

theorem mem_chosen {place : ℕ} (mem : place ∈ chosen count scores) :
    ∃ score, scores[place]? = some score ∧ ⊥ < score := by
  rw [chosen_eq] at mem
  obtain ⟨entry, taken, rfl⟩ := mem_map.mp mem
  exact ⟨entry.1, mem_shown.mp ((ranked_perm scores).mem_iff.mp (mem_of_mem_take taken))⟩

/-- **What is chosen precedes what is shown and is not chosen.** -/
theorem chosen_before {here there : Value × ℕ} (first : here ∈ shown scores) (taken : here.2 ∈ chosen count scores)
    (second : there ∈ shown scores) (left : there.2 ∉ chosen count scores) : precedes here there := by
  rw [chosen_eq] at taken left
  obtain ⟨entry, inside, same⟩ := mem_map.mp taken
  have visible := (ranked_perm scores).mem_iff.mp (mem_of_mem_take inside)
  obtain rfl := shown_place visible first same
  have rest : there ∈ (ranked scores).drop count := by
    have all := (ranked_perm scores).mem_iff.mpr second
    rw [← take_append_drop count (ranked scores)] at all
    exact (mem_append.mp all).resolve_left fun inside => left (mem_map_of_mem inside)
  have sorted := ranked_sorted scores
  rw [← take_append_drop count (ranked scores)] at sorted
  exact (pairwise_append.mp sorted).2.2 entry inside there rest

/-! ### Scores that are computed from their places -/

variable {score : ℕ → Value}

theorem shown_range (score : ℕ → Value) (count : ℕ) : shown ((range count).map score)
    = ((range count).filter fun place => decide (⊥ < score place)).map fun place => (score place, place) := by
  unfold shown
  rw [zipIdx_map, zipIdx_range, map_map, filter_map]
  rfl

theorem shown_range_le {fewer more : ℕ} (less : fewer ≤ more)
    (hidden : ∀ place, fewer ≤ place → place < more → score place = ⊥) :
    shown ((range more).map score) = shown ((range fewer).map score) := by
  obtain ⟨rest, rfl⟩ := Nat.exists_eq_add_of_le less
  rw [shown_range, shown_range, range_add, filter_append]
  have none_ : ((range rest).map (fewer + ·)).filter (fun place => decide (⊥ < score place)) = [] := by
    refine filter_eq_nil_iff.mpr fun place mem above => ?_
    obtain ⟨offset, inside, rfl⟩ := mem_map.mp mem
    have below := mem_range.mp inside
    rw [hidden _ (Nat.le_add_right _ _) (Nat.add_lt_add_left below fewer)] at above
    exact lt_irrefl _ (of_decide_eq_true above)
  rw [none_, append_nil]

theorem shown_range_congr {one two bound : ℕ} (first : bound ≤ one) (second : bound ≤ two)
    (hidden : ∀ place, bound ≤ place → score place = ⊥) :
    shown ((range one).map score) = shown ((range two).map score) := by
  rw [shown_range_le first fun place beyond _ => hidden place beyond,
    shown_range_le second fun place beyond _ => hidden place beyond]

/-- **A mask of the chosen places, scattered.** -/
theorem scatter_chosen (count : ℕ) (scores : List Value) : scatter (replicate scores.length false)
        ((highest count scores).map fun entry => (entry.2, decide (⊥ < entry.1)))
      = (range scores.length).map fun place => decide (place ∈ chosen count scores) := by
  have places : ((descending scores).map Prod.snd).Nodup := by
    refine ((descending_perm scores).map Prod.snd).nodup_iff.mpr ?_
    rw [zipIdx_map_snd]
    exact nodup_range'
  have distinct : (((highest count scores).map fun entry => (entry.2, decide (⊥ < entry.1))).map Prod.fst).Nodup := by
    rw [map_map]
    exact places.sublist ((take_sublist _ _).map _)
  refine ext_getElem? fun place => ?_
  by_cases inside : place < scores.length
  · rw [getElem?_map, getElem?_range inside, Option.map_some]
    by_cases taken : ∃ entry ∈ highest count scores, entry.2 = place
    · obtain ⟨entry, mem, rfl⟩ := taken
      refine (scatter_at distinct (mem_map.mpr ⟨entry, mem, rfl⟩)
        (by rw [length_replicate]; exact inside)).trans (congrArg some ?_)
      refine decide_eq_decide.mpr ⟨fun above => ?_, fun listed => ?_⟩
      · exact mem_map.mpr ⟨entry, mem_filter.mpr ⟨mem, decide_eq_true above⟩, rfl⟩
      · obtain ⟨other, there, same⟩ := mem_map.mp listed
        obtain ⟨among, above⟩ := mem_filter.mp there
        have equal := inj_on_of_nodup_map places (mem_of_mem_take among) (mem_of_mem_take mem) same
        rw [← equal]
        exact of_decide_eq_true above
    · have absent : place ∉ chosen count scores := fun listed => by
        obtain ⟨entry, there, same⟩ := mem_map.mp listed
        exact taken ⟨entry, (mem_filter.mp there).1, same⟩
      rw [scatter_other, getElem?_replicate_of_lt inside, decide_eq_false absent]
      refine forall_mem_map.mpr fun entry mem same => taken ⟨entry, mem, same⟩
  · rw [getElem?_eq_none (by rw [length_scatter, length_replicate]; omega),
      getElem?_eq_none (by rw [length_map, length_range]; omega)]

end TinyDSV41.Lib

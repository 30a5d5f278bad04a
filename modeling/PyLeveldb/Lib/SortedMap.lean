import PyLeveldb.Lib.Sorted

/-!
# Finite maps with ordered keys

`SortedMap cmp ν`: a finite map from keys to `ν`, as the list of its entries, which increases under
`cmp`. Keys that compare equal are one key: the map has one entry for them, with the spelling that was
inserted last.
-/

/-- A finite map, by its entries in the order of their keys. -/
structure SortedMap {κ : Type} (cmp : κ → κ → Int) (ν : Type) where
  entries : List (κ × ν)
  increasing : Sorted.Increasing cmp Prod.fst entries

namespace SortedMap

variable {κ ν : Type} {cmp : κ → κ → Int}

/-- No entry. -/
def empty : SortedMap cmp ν := ⟨[], List.Pairwise.nil⟩

/-- The entry at `k`. -/
def find (cmp : κ → κ → Int) (k : κ) (l : List (κ × ν)) : Option (κ × ν) :=
  l.find? fun e => decide (cmp k e.1 = 0)

/-- The value at `k`. -/
def get (m : SortedMap cmp ν) (k : κ) : Option ν := (find cmp k m.entries).map Prod.snd

/-- `l` with the entry `e`, in the place of its key. -/
def place (cmp : κ → κ → Int) (e : κ × ν) : List (κ × ν) → List (κ × ν)
  | [] => [e]
  | a :: l =>
    if cmp e.1 a.1 < 0 then e :: a :: l
    else if cmp e.1 a.1 = 0 then e :: l
    else a :: place cmp e l

theorem mem_place {e a : κ × ν} {l : List (κ × ν)} (h : a ∈ place cmp e l) : a = e ∨ a ∈ l := by
  induction l with
  | nil => exact .inl (List.mem_singleton.mp h)
  | cons b l ih =>
    unfold place at h
    split at h
    · exact List.mem_cons.mp h
    · split at h
      · exact (List.mem_cons.mp h).imp_right fun h => List.mem_cons_of_mem _ h
      · rcases List.mem_cons.mp h with rfl | h
        · exact .inr List.mem_cons_self
        · exact (ih h).imp_right fun h => List.mem_cons_of_mem _ h

theorem increasing_place (hc : Compares cmp) (e : κ × ν) {l : List (κ × ν)}
    (hl : Sorted.Increasing cmp Prod.fst l) : Sorted.Increasing cmp Prod.fst (place cmp e l) := by
  induction l with
  | nil => exact List.pairwise_singleton _ _
  | cons a l ih =>
    obtain ⟨ha, hl'⟩ := List.pairwise_cons.mp hl
    unfold place
    split
    · next hlt =>
      refine List.pairwise_cons.mpr ⟨fun b hb => ?_, hl⟩
      rcases List.mem_cons.mp hb with rfl | hb
      · exact hlt
      · exact hc.lt_of_lt_of_le hlt (Int.le_of_lt (ha b hb))
    · split
      · next heq => exact List.pairwise_cons.mpr ⟨fun b hb => hc.lt_of_le_of_lt (by omega) (ha b hb), hl'⟩
      · next hlt hne =>
        refine List.pairwise_cons.mpr ⟨fun b hb => ?_, ih hl'⟩
        rcases mem_place hb with rfl | hb
        · have := hc.flip a.1 b.1
          show cmp a.1 b.1 < 0
          omega
        · exact ha b hb

/-- The map with `v` at `k`. -/
def insert (hc : Compares cmp) (m : SortedMap cmp ν) (k : κ) (v : ν) : SortedMap cmp ν :=
  ⟨place cmp (k, v) m.entries, increasing_place hc _ m.increasing⟩

/-- The map with nothing at `k`. -/
def erase (m : SortedMap cmp ν) (k : κ) : SortedMap cmp ν :=
  ⟨m.entries.filter fun e => cmp k e.1 ≠ 0, m.increasing.filter _⟩

/-! ### Reading after writing -/

/-- Keys that compare equal compare alike. -/
theorem zero_congr (hc : Compares cmp) {a b c : κ} (h : cmp a b = 0) : cmp a c = 0 ↔ cmp b c = 0 := by
  have := hc.trans a b c
  have := hc.trans b a c
  have := hc.trans c a b
  have := hc.trans c b a
  have := hc.zero_iff a b
  have := hc.le_iff a c
  have := hc.le_iff c a
  have := hc.le_iff b c
  have := hc.le_iff c b
  omega

theorem find_place (hc : Compares cmp) (k k' : κ) (v : ν) (l : List (κ × ν)) :
    (find cmp k' (place cmp (k, v) l)).map Prod.snd =
      if cmp k' k = 0 then some v else (find cmp k' l).map Prod.snd := by
  unfold find
  induction l with
  | nil =>
    unfold place
    by_cases hk : cmp k' k = 0 <;> simp [hk]
  | cons a l ih =>
    unfold place
    split
    · by_cases hk : cmp k' k = 0 <;> simp [List.find?_cons, hk]
    · next hlt =>
      split
      · next heq =>
        by_cases hk : cmp k' k = 0
        · simp [hk]
        · have ha : ¬ cmp k' a.1 = 0 := by
            rw [hc.zero_iff, ← zero_congr hc (show cmp k a.1 = 0 from heq), hc.zero_iff]
            exact hk
          simp [hk, ha]
      · next hne =>
        by_cases ha : cmp k' a.1 = 0
        · have hk : ¬ cmp k' k = 0 := by
            rw [zero_congr hc ha, hc.zero_iff]
            exact hne
          simp [ha, hk]
        · rw [List.find?_cons_of_neg (by simpa using ha), List.find?_cons_of_neg (by simpa using ha), ih]

theorem get_insert (hc : Compares cmp) (m : SortedMap cmp ν) (k k' : κ) (v : ν) :
    (m.insert hc k v).get k' = if cmp k' k = 0 then some v else m.get k' :=
  find_place hc k k' v m.entries

theorem get_erase (hc : Compares cmp) (m : SortedMap cmp ν) (k k' : κ) :
    (m.erase k).get k' = if cmp k' k = 0 then none else m.get k' := by
  simp only [get, find, erase, List.find?_filter]
  by_cases hk : cmp k' k = 0
  · rw [if_pos hk, List.find?_eq_none.mpr, Option.map_none]
    intro e he
    have := zero_congr hc hk (c := e.1)
    simp
    omega
  · rw [if_neg hk]
    congr 2
    funext e
    by_cases he : cmp k' e.1 = 0
    · have hke : ¬ cmp k e.1 = 0 := by
        rw [hc.zero_iff, ← zero_congr hc he]
        exact hk
      simp [he, hke]
    · simp [he]

end SortedMap

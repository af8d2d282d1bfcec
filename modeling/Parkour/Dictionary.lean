/-!
# Dictionaries

Entries under text keys, kept in the ascending order of the keys by code points.
Each key is written once, so dictionaries that answer alike are equal.
-/

namespace Parkour

/-- Values under text keys. -/
structure Dictionary (α : Type) where
  /-- The entries in the order of their keys. -/
  entries : List (String × α) := []
  /-- Each key is less than those behind it. -/
  ascending : entries.Pairwise fun a b => a.1 < b.1 := by exact .nil

namespace Dictionary

variable {α : Type}

instance : EmptyCollection (Dictionary α) := ⟨{}⟩

instance : Inhabited (Dictionary α) := ⟨∅⟩

/-- The value of the first entry under `key`. -/
def seek (key : String) : List (String × α) → Option α
  | [] => none
  | (other, held) :: rest => if key = other then some held else seek key rest

/-- The value under `key`. -/
def get? (d : Dictionary α) (key : String) : Option α :=
  seek key d.entries

/-- Puts one entry in its place, over an older entry of the same key. -/
def place (key : String) (value : α) : List (String × α) → List (String × α)
  | [] => [(key, value)]
  | (other, held) :: rest =>
      if key = other then (key, value) :: rest
      else if key < other then (key, value) :: (other, held) :: rest
      else (other, held) :: place key value rest

theorem mem_place {key : String} {value : α} {es : List (String × α)} {e : String × α}
    (h : e ∈ place key value es) : e = (key, value) ∨ e ∈ es := by
  induction es with
  | nil => simpa [place] using h
  | cons first rest ih =>
      simp only [place] at h
      split at h
      · simp only [List.mem_cons] at h ⊢
        rcases h with h | h
        · exact .inl h
        · exact .inr (.inr h)
      · split at h
        · simpa only [List.mem_cons] using h
        · simp only [List.mem_cons] at h ⊢
          rcases h with h | h
          · exact .inr (.inl h)
          · rcases ih h with h | h
            · exact .inl h
            · exact .inr (.inr h)

theorem ascending_place (key : String) (value : α) {es : List (String × α)}
    (h : es.Pairwise fun a b => a.1 < b.1) :
    (place key value es).Pairwise fun a b => a.1 < b.1 := by
  induction es with
  | nil => simp [place]
  | cons first rest ih =>
      obtain ⟨above, tail⟩ := List.pairwise_cons.1 h
      simp only [place]
      split
      · next same => exact List.pairwise_cons.2 ⟨fun e he => same ▸ above e he, tail⟩
      · next differs =>
        split
        · next less =>
          refine List.pairwise_cons.2 ⟨fun e he => ?_, h⟩
          rcases List.mem_cons.1 he with rfl | he
          · exact less
          · exact String.lt_trans less (above e he)
        · next notLess =>
          refine List.pairwise_cons.2 ⟨fun e he => ?_, ih tail⟩
          rcases mem_place he with rfl | he
          · exact Std.lt_of_le_of_ne (String.not_lt.1 notLess) (Ne.symm differs)
          · exact above e he

/-- The dictionary with `value` under `key`. -/
def insert (d : Dictionary α) (key : String) (value : α) : Dictionary α :=
  ⟨place key value d.entries, ascending_place key value d.ascending⟩

/-- The dictionary without `key`. -/
def erase (d : Dictionary α) (key : String) : Dictionary α :=
  ⟨d.entries.filter (·.1 != key), d.ascending.filter _⟩

/-- The keys in their order. -/
def keys (d : Dictionary α) : List String :=
  d.entries.map (·.1)

/-- No entry at all. -/
def isEmpty (d : Dictionary α) : Bool :=
  d.entries.isEmpty

/-- Inserts the pairs from left to right. -/
def ofList (pairs : List (String × α)) : Dictionary α :=
  pairs.foldl (fun d pair => d.insert pair.1 pair.2) ∅

@[simp] theorem get?_empty (key : String) : (∅ : Dictionary α).get? key = none := rfl

private theorem seek_place_self (key : String) (value : α) (es : List (String × α)) :
    seek key (place key value es) = some value := by
  induction es with
  | nil => simp [place, seek]
  | cons e rest ih =>
      obtain ⟨other, held⟩ := e
      simp only [place]
      split
      · simp [seek]
      · next differs =>
        split
        · simp [seek]
        · simp [seek, differs, ih]

private theorem seek_place_of_ne {key asked : String} (value : α) (h : asked ≠ key)
    (es : List (String × α)) : seek asked (place key value es) = seek asked es := by
  induction es with
  | nil => simp [place, seek, h]
  | cons e rest ih =>
      obtain ⟨other, held⟩ := e
      simp only [place]
      split
      · next same => subst same; simp [seek, h]
      · split
        · simp [seek, h]
        · simp only [seek, ih]

@[simp] theorem get?_insert_self (d : Dictionary α) (key : String) (value : α) :
    (d.insert key value).get? key = some value :=
  seek_place_self key value d.entries

theorem get?_insert_of_ne (d : Dictionary α) {key asked : String} (value : α)
    (h : asked ≠ key) : (d.insert key value).get? asked = d.get? asked :=
  seek_place_of_ne value h d.entries

/-- What holds of all values and of a new one holds of all values after the insertion. -/
theorem forall_insert {d : Dictionary α} {P : String → α → Prop}
    (h : ∀ key value, d.get? key = some value → P key value) {key : String} {value : α}
    (hvalue : P key value) : ∀ asked held, (d.insert key value).get? asked = some held →
      P asked held := by
  intro asked held hheld
  by_cases same : asked = key
  · rw [same, get?_insert_self] at hheld
    cases hheld
    exact same ▸ hvalue
  · rw [get?_insert_of_ne d value same] at hheld
    exact h asked held hheld

private theorem exists_seek {key : String} {es : List (String × α)}
    (h : key ∈ es.map (·.1)) : ∃ value, seek key es = some value := by
  induction es with
  | nil => cases h
  | cons e rest ih =>
      obtain ⟨other, held⟩ := e
      by_cases same : key = other
      · exact ⟨held, if_pos same⟩
      · obtain ⟨value, hvalue⟩ := ih ((List.mem_cons.1 h).resolve_left same)
        exact ⟨value, by simp [seek, same, hvalue]⟩

/-- Under each key something is found. -/
theorem exists_of_mem_keys {d : Dictionary α} {key : String} (h : key ∈ d.keys) :
    ∃ value, d.get? key = some value :=
  exists_seek h

/-- Nothing is found under a key that is less than all keys. -/
theorem seek_eq_none {key : String} {es : List (String × α)}
    (h : ∀ e ∈ es, key < e.1) : seek key es = none := by
  induction es with
  | nil => rfl
  | cons e rest ih =>
      obtain ⟨above, tail⟩ := List.forall_mem_cons.1 h
      have differs : key ≠ e.1 := fun same => String.lt_irrefl e.1 (same ▸ above)
      simp [seek, differs, ih tail]

private theorem eq_of_seek_eq {es fs : List (String × α)}
    (hes : es.Pairwise fun a b => a.1 < b.1) (hfs : fs.Pairwise fun a b => a.1 < b.1)
    (same : ∀ key, seek key es = seek key fs) : es = fs := by
  induction es generalizing fs with
  | nil =>
      cases fs with
      | nil => rfl
      | cons f fs => simpa [seek] using same f.1
  | cons e es ih =>
      cases fs with
      | nil => simpa [seek] using same e.1
      | cons f fs =>
          obtain ⟨aboveE, tailE⟩ := List.pairwise_cons.1 hes
          obtain ⟨aboveF, tailF⟩ := List.pairwise_cons.1 hfs
          have absentE : seek e.1 es = none := seek_eq_none aboveE
          have absentF : seek f.1 fs = none := seek_eq_none aboveF
          have keys : e.1 = f.1 := by
            rcases Std.le_total (a := e.1) (b := f.1) with le | le
            · refine Classical.byContradiction fun differs => ?_
              have below : e.1 < f.1 := Std.lt_of_le_of_ne le differs
              have absent : seek e.1 fs = none :=
                seek_eq_none fun g hg => String.lt_trans below (aboveF g hg)
              simpa [seek, differs, absent] using same e.1
            · refine Classical.byContradiction fun differs => ?_
              have below : f.1 < e.1 := Std.lt_of_le_of_ne le (Ne.symm differs)
              have absent : seek f.1 es = none :=
                seek_eq_none fun g hg => String.lt_trans below (aboveE g hg)
              simpa [seek, Ne.symm differs, absent] using same f.1
          have values : e.2 = f.2 := by simpa [seek, keys] using same e.1
          have tails : es = fs := by
            refine ih tailE tailF fun key => ?_
            by_cases h : key = e.1
            · rw [h, absentE, keys, absentF]
            · have h' : key ≠ f.1 := keys ▸ h
              simpa [seek, h, h'] using same key
          rw [tails, Prod.ext keys values]

/-- Dictionaries that answer alike are equal. -/
theorem ext_get? {d e : Dictionary α} (h : ∀ key, d.get? key = e.get? key) : d = e := by
  have entries := eq_of_seek_eq d.ascending e.ascending h
  obtain ⟨_, _⟩ := d
  obtain ⟨_, _⟩ := e
  simp only at entries
  subst entries
  rfl

end Dictionary

end Parkour

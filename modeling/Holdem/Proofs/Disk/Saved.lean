import Holdem.Disk

/-!
# Saved histories

A disk holds a history at a path if the path leads to it and it may be changed (`Disk.Holds`). What
a path leads to depends on which files there are, not on what is in them (`walk_put`,
`simplify?_put`). So when new rows are put in the place of old ones the path still leads there.

Results: a history that is held is opened with its rows (`Holds.openHistory`), and when it is saved
with other rows the disk holds it with those (`Holds.exists_saved`). A history that is only read is
not saved (`saveHistory_of_readOnly`).
-/

namespace Holdem.Disk

variable {d : Disk} {file dir names : List String} {text path : String} {rows : List Row}
  {c old : Content}

/-- A path at which a disk holds a history that may be changed. -/
def Holds (d : Disk) (text : String) (rows : List Row) : Prop :=
  ∃ l path names, Location.ofText? text = some l ∧ l.writable = true ∧ l.path = some path ∧
    d.historyPlace path = .file names (.history rows)

/-- A path at which a history is only read. -/
def ReadOnly (text : String) : Prop := ∃ l, Location.ofText? text = some l ∧ l.writable = false

/-! ## A file with other content -/

theorem content?_put (d : Disk) (file : List String) (c : Content) (other : List String) :
    (d.put file c).content? other = if other = file then some c else d.content? other := by
  unfold content? put
  rw [List.find?_append, List.find?_filter]
  by_cases h : other = file
  · rw [if_pos h, List.find?_eq_none.mpr (by simp [h])]
    simp [h]
  · have hsame : (fun f : List String × Content =>
        decide (decide (f.1 ≠ file) = true ∧ decide (f.1 = other) = true)) =
        fun f => decide (f.1 = other) := by
      funext f
      by_cases hf : f.1 = other
      · simp [hf, h]
      · simp [hf]
    rw [if_neg h, hsame, List.find?_singleton, if_neg (by simpa using Ne.symm h), Option.or_none]

/-- There are no other directories. -/
theorem isDirectory_put (hfile : (d.content? file).isSome) (c : Content) (dir : List String) :
    (d.put file c).isDirectory dir = d.isDirectory dir := by
  obtain ⟨content, hcontent⟩ := Option.isSome_iff_exists.mp hfile
  unfold content? at hcontent
  obtain ⟨e, he, -⟩ := Option.map_eq_some_iff.mp hcontent
  have hmem := List.mem_of_find?_eq_some he
  have hname : e.1 = file := by simpa using List.find?_some he
  unfold isDirectory put
  congr 1
  rw [Bool.eq_iff_iff, List.any_eq_true, List.any_eq_true]
  constructor
  · rintro ⟨f, hf, hbelow⟩
    rcases List.mem_append.mp hf with hf | hf
    · exact ⟨f, (List.mem_filter.mp hf).1, hbelow⟩
    · rw [List.mem_singleton.mp hf, ← hname] at hbelow
      exact ⟨e, hmem, hbelow⟩
  · rintro ⟨f, hf, hbelow⟩
    by_cases h : f.1 = file
    · exact ⟨(file, c), List.mem_append_right _ List.mem_cons_self, h ▸ hbelow⟩
    · exact ⟨f, List.mem_append_left _ (List.mem_filter.mpr ⟨hf, by simpa using h⟩), hbelow⟩

/-- What a walk leads to is there. -/
theorem content?_of_walk (h : d.walk dir names = .file file c) : d.content? file = some c := by
  induction names generalizing dir with
  | nil => cases h
  | cons name rest ih =>
    rw [walk] at h
    split at h
    · exact ih h
    · split at h
      · cases h
      · dsimp only at h
        split at h
        · rename_i content hcontent
          split at h
          · cases h
            exact hcontent
          · cases h
        · split at h
          · exact ih h
          · split at h <;> cases h

/-- **The way to a file** does not depend on what is in it. -/
theorem walk_put (c : Content) (h : d.walk dir names = .file file old) :
    (d.put file c).walk dir names = .file file c := by
  have hfile : (d.content? file).isSome := by
    rw [content?_of_walk h]
    rfl
  induction names generalizing dir with
  | nil => cases h
  | cons name rest ih =>
    rw [walk] at h ⊢
    split at h
    · rename_i hup
      rw [if_pos hup]
      exact ih h
    · rename_i hup
      rw [if_neg hup]
      split at h
      · cases h
      · rename_i hlong
        rw [if_neg hlong]
        dsimp only at h ⊢
        rw [content?_put, isDirectory_put hfile]
        split at h
        · rename_i content hcontent
          split at h
          · rename_i hrest
            cases h
            rw [if_pos rfl]
            exact if_pos hrest
          · cases h
        · rename_i hnone
          have hne : dir ++ [name] ≠ file := by
            rintro rfl
            rw [hnone] at hfile
            cases hfile
          rw [if_neg hne, hnone]
          split at h
          · rename_i hdir
            rw [if_pos hdir]
            exact ih h
          · split at h <;> cases h

theorem simplify?_put (hfile : (d.content? file).isSome) (c : Content) (dir names : List String) :
    (d.put file c).simplify? dir names = d.simplify? dir names := by
  have hsome : ∀ dir, ((d.put file c).content? dir).isSome = (d.content? dir).isSome := by
    intro dir
    rw [content?_put]
    split
    · rename_i h
      rw [h, hfile]
      rfl
    · rfl
  induction names generalizing dir with
  | nil => rfl
  | cons name rest ih => simp only [simplify?, hsome, ih]

theorem historyPlace_put (c : Content) (h : d.historyPlace path = .file file old) :
    (d.put file c).historyPlace path = .file file c := by
  unfold historyPlace at h ⊢
  cases hnames : d.simplify? (start path) (names path) with
  | none =>
    rw [hnames] at h
    cases h
  | some names =>
    rw [hnames] at h
    have hwalk : d.walk [] names = .file file old := h
    have hfile : (d.content? file).isSome := by
      rw [content?_of_walk hwalk]
      rfl
    rw [simplify?_put hfile, hnames]
    exact walk_put c hwalk

/-! ## Histories -/

/-- **A history that is held** is opened with its rows. -/
theorem Holds.openHistory (h : d.Holds text rows) : d.openHistory text = (.ok rows, d) := by
  obtain ⟨l, path, names, hl, -, hpath, hplace⟩ := h
  unfold Disk.openHistory openFile
  simp only [hl, hpath, hplace]

/-- **A history that is saved** is held with the rows that it was saved with. -/
theorem Holds.exists_saved (h : d.Holds text rows) (rows' : List Row) :
    ∃ d', d.saveHistory text rows' = (.ok (), d') ∧ d'.Holds text rows' := by
  obtain ⟨l, path, names, hl, hwritable, hpath, hplace⟩ := h
  refine ⟨d.put names (.history rows'), ?_, l, path, names, hl, hwritable, hpath,
    historyPlace_put _ hplace⟩
  unfold saveHistory
  simp only [hl, hwritable, not_true_eq_false, if_false, hpath, hplace]

theorem saveHistory_of_readOnly (h : ReadOnly text) (d : Disk) (rows : List Row) :
    d.saveHistory text rows = (unopened text, d) := by
  obtain ⟨l, hl, hfixed⟩ := h
  unfold saveHistory
  simp only [hl, hfixed, Bool.false_eq_true, not_false_eq_true, if_true]

end Holdem.Disk

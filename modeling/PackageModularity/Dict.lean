/-! Finite maps listed by increasing key, so that equal maps are equal values. -/
namespace PackageModularity

variable {κ : Type} {α : Type} [Ord κ]

def Increasing (entries : List (κ × α)) : Prop :=
  entries.Pairwise fun a b => compare a.1 b.1 = .lt

structure Dict (κ α : Type) [Ord κ] where
  entries : List (κ × α)
  increasing : Increasing entries

namespace Dict

/-- Puts `f none`, or `f (some old)` where the key has a value already. -/
def place (k : κ) (f : Option α → α) : List (κ × α) → List (κ × α)
  | [] => [(k, f none)]
  | (k', v) :: r =>
    match compare k k' with
    | .lt => (k, f none) :: (k', v) :: r
    | .eq => (k, f (some v)) :: r
    | .gt => (k', v) :: place k f r

def find [DecidableEq κ] (k : κ) : List (κ × α) → Option α
  | [] => none
  | (k', v) :: r => if k = k' then some v else find k r

theorem key_of_mem_place {k : κ} {f : Option α → α} {es : List (κ × α)} {e : κ × α}
    (h : e ∈ place k f es) : e.1 = k ∨ e ∈ es := by
  induction es with
  | nil =>
    simp only [place, List.mem_cons, List.not_mem_nil, or_false] at h
    exact Or.inl (by rw [h])
  | cons p r ih =>
    obtain ⟨k', v⟩ := p
    simp only [place] at h
    split at h
    · rcases List.mem_cons.1 h with h | h
      · exact Or.inl (by rw [h])
      · exact Or.inr h
    · rcases List.mem_cons.1 h with h | h
      · exact Or.inl (by rw [h])
      · exact Or.inr (List.mem_cons_of_mem _ h)
    · rcases List.mem_cons.1 h with h | h
      · exact Or.inr (by rw [h]; exact List.mem_cons_self)
      · rcases ih h with h | h
        · exact Or.inl h
        · exact Or.inr (List.mem_cons_of_mem _ h)

variable [Std.TransOrd κ] [Std.LawfulEqOrd κ]

theorem increasing_place (k : κ) (f : Option α → α) {es : List (κ × α)}
    (h : Increasing es) : Increasing (place k f es) := by
  induction es with
  | nil => exact List.pairwise_singleton _ _
  | cons p r ih =>
    obtain ⟨k', v⟩ := p
    obtain ⟨hp, hr⟩ := List.pairwise_cons.1 h
    simp only [place]
    split
    · rename_i hlt
      refine List.pairwise_cons.2 ⟨?_, h⟩
      intro e he
      rcases List.mem_cons.1 he with rfl | he
      · exact hlt
      · exact Std.TransCmp.lt_trans hlt (hp e he)
    · rename_i heq
      refine List.pairwise_cons.2 ⟨?_, hr⟩
      intro e he
      rw [Std.LawfulEqCmp.eq_of_compare heq]
      exact hp e he
    · rename_i hgt
      refine List.pairwise_cons.2 ⟨?_, ih hr⟩
      intro e he
      rcases key_of_mem_place he with h | h
      · rw [h]; exact Std.OrientedCmp.lt_of_gt hgt
      · exact hp e h

variable [DecidableEq κ]

omit [Std.LawfulEqOrd κ] in
theorem find_below {k j : κ} {v : α} {es : List (κ × α)} (h : Increasing ((j, v) :: es))
    (c : compare k j = .lt) : find k es = none := by
  induction es generalizing j v with
  | nil => rfl
  | cons p r ih =>
    obtain ⟨hp, hr⟩ := List.pairwise_cons.1 h
    have hk : compare k p.1 = .lt := Std.TransCmp.lt_trans c (hp p List.mem_cons_self)
    have ne : k ≠ p.1 := fun e => by simp [e] at hk
    simp [find, ne, ih hr hk]

theorem find_place (k k' : κ) (f : Option α → α) {es : List (κ × α)} (h : Increasing es) :
    find k' (place k f es) = if k' = k then some (f (find k es)) else find k' es := by
  induction es with
  | nil => by_cases e : k' = k <;> simp [place, find, e]
  | cons p r ih =>
    obtain ⟨j, v⟩ := p
    cases c : compare k j with
    | lt =>
      have ne : k ≠ j := fun e => by simp [e] at c
      by_cases e : k' = k
      · subst e; simp [place, c, find, ne, find_below h c]
      · simp [place, c, find, e]
    | eq =>
      have hk := Std.LawfulEqCmp.eq_of_compare c
      subst hk
      by_cases e : k' = k <;> simp [place, find, e]
    | gt =>
      have ne : k ≠ j := fun e => by simp [e] at c
      simp only [place, c, find, ih (List.pairwise_cons.1 h).2]
      by_cases e : k' = k
      · subst e; simp [ne]
      · simp [e]

def empty : Dict κ α := ⟨[], List.Pairwise.nil⟩

instance : Inhabited (Dict κ α) := ⟨empty⟩
instance : EmptyCollection (Dict κ α) := ⟨empty⟩

def alter (d : Dict κ α) (k : κ) (f : Option α → α) : Dict κ α :=
  ⟨place k f d.entries, increasing_place k f d.increasing⟩

def insert (d : Dict κ α) (k : κ) (v : α) : Dict κ α := d.alter k fun _ => v

def get? (d : Dict κ α) (k : κ) : Option α := find k d.entries

/-- Of two values for one key the later stays. -/
def ofList (es : List (κ × α)) : Dict κ α := es.foldl (fun d e => d.insert e.1 e.2) empty

def toList (d : Dict κ α) : List (κ × α) := d.entries

def keys (d : Dict κ α) : List κ := d.entries.map (·.1)

def values (d : Dict κ α) : List α := d.entries.map (·.2)

def size (d : Dict κ α) : Nat := d.entries.length

def contains (d : Dict κ α) (k : κ) : Bool := (d.get? k).isSome

omit [Std.TransOrd κ] [Std.LawfulEqOrd κ] in
@[simp] theorem get?_empty (k : κ) : (empty : Dict κ α).get? k = none := rfl

theorem get?_alter (d : Dict κ α) (k k' : κ) (f : Option α → α) :
    (d.alter k f).get? k' = if k' = k then some (f (d.get? k)) else d.get? k' :=
  find_place k k' f d.increasing

@[simp] theorem get?_insert (d : Dict κ α) (k k' : κ) (v : α) :
    (d.insert k v).get? k' = if k' = k then some v else d.get? k' :=
  get?_alter d k k' fun _ => v

omit [Ord κ] [Std.TransOrd κ] [Std.LawfulEqOrd κ] in
theorem mem_of_find {k : κ} {v : α} {es : List (κ × α)} (h : find k es = some v) :
    (k, v) ∈ es := by
  induction es with
  | nil => simp [find] at h
  | cons p r ih =>
    by_cases c : k = p.1
    · simp only [find, c, if_true, Option.some.injEq] at h
      simp [c, ← h]
    · simp only [find, c, if_false] at h
      exact List.mem_cons_of_mem _ (ih h)

omit [Std.LawfulEqOrd κ] in
theorem find_of_mem {k : κ} {v : α} {es : List (κ × α)} (h : Increasing es)
    (m : (k, v) ∈ es) : find k es = some v := by
  induction es with
  | nil => simp at m
  | cons p r ih =>
    obtain ⟨hp, hr⟩ := List.pairwise_cons.1 h
    rcases List.mem_cons.1 m with rfl | m
    · simp [find]
    · have lt := hp _ m
      have ne : k ≠ p.1 := fun e => by simp [e] at lt
      simp [find, ne, ih hr m]

omit [Std.LawfulEqOrd κ] in
theorem get?_eq_some_iff {d : Dict κ α} {k : κ} {v : α} :
    d.get? k = some v ↔ (k, v) ∈ d.toList := ⟨mem_of_find, find_of_mem d.increasing⟩

theorem ext_get? {d e : Dict κ α} (h : ∀ k, d.get? k = e.get? k) : d = e := by
  have mem : ∀ p : κ × α, p ∈ d.entries ↔ p ∈ e.entries := fun ⟨k, v⟩ => by
    show (k, v) ∈ d.toList ↔ (k, v) ∈ e.toList
    rw [← get?_eq_some_iff, ← get?_eq_some_iff, h k]
  obtain ⟨xs, hx⟩ := d
  obtain ⟨ys, hy⟩ := e
  congr
  clear h
  induction xs generalizing ys with
  | nil =>
    cases ys with
    | nil => rfl
    | cons y ys => exact absurd ((mem y).2 List.mem_cons_self) (by simp)
  | cons x xs ih =>
    cases ys with
    | nil => exact absurd ((mem x).1 List.mem_cons_self) (by simp)
    | cons y ys =>
      obtain ⟨hx1, hx2⟩ := List.pairwise_cons.1 hx
      obtain ⟨hy1, hy2⟩ := List.pairwise_cons.1 hy
      have hxy : x = y := by
        rcases List.mem_cons.1 ((mem x).1 List.mem_cons_self) with h | h
        · exact h
        · rcases List.mem_cons.1 ((mem y).2 List.mem_cons_self) with h' | h'
          · exact h'.symm
          · have a := hy1 x h
            have b := hx1 y h'
            simpa using Std.TransCmp.lt_trans a b
      subst hxy
      congr 1
      refine ih hx2 ys hy2 fun p => ?_
      constructor
      · intro hp
        rcases List.mem_cons.1 ((mem p).1 (List.mem_cons_of_mem _ hp)) with h | h
        · subst h; simpa using hx1 p hp
        · exact h
      · intro hp
        rcases List.mem_cons.1 ((mem p).2 (List.mem_cons_of_mem _ hp)) with h | h
        · subst h; simpa using hy1 p hp
        · exact h

end Dict

end PackageModularity

import Mathlib.Data.List.Count
import PackageModularity.Source.TypeText

/-!
Texts in which angle brackets stand in pairs, and what is left of them where brackets are erased. That
brackets stand in pairs is decided by counting those that are open.
-/
namespace PackageModularity

/-- A text in which each angle bracket has its other half. -/
inductive Paired : List Char → Prop where
  | nil : Paired []
  | plain {c : Char} (hopen : c ≠ '<') (hclose : c ≠ '>') : Paired [c]
  | append {xs ys : List Char} (hx : Paired xs) (hy : Paired ys) : Paired (xs ++ ys)
  | enclosed {xs : List Char} (h : Paired xs) : Paired ('<' :: xs ++ ['>'])

theorem paired_of_not_mem {xs : List Char} (hopen : '<' ∉ xs) (hclose : '>' ∉ xs) : Paired xs := by
  induction xs with
  | nil => exact .nil
  | cons c r ih =>
    obtain ⟨hc, hr⟩ := not_or.1 (mt List.mem_cons.2 hopen)
    obtain ⟨hc', hr'⟩ := not_or.1 (mt List.mem_cons.2 hclose)
    exact .append (.plain (Ne.symm hc) (Ne.symm hc')) (ih hr hr')

theorem Paired.insert {xs ys zs : List Char} (h : Paired (xs ++ ys)) (hz : Paired zs) :
    Paired (xs ++ zs ++ ys) := by
  generalize htext : xs ++ ys = text at h
  induction h generalizing xs ys with
  | nil =>
    obtain ⟨rfl, rfl⟩ := List.append_eq_nil_iff.1 htext
    simpa using hz
  | plain hopen hclose =>
    obtain ⟨rfl, rfl⟩ | ⟨rfl, rfl⟩ := List.append_eq_singleton_iff.1 htext
    · exact hz.append (.plain hopen hclose)
    · simpa using Paired.append (.plain hopen hclose) hz
  | append hx hy ihx ihy =>
    obtain ⟨m, rfl, rfl⟩ | ⟨m, rfl, rfl⟩ := List.append_eq_append_iff.1 htext
    · simpa using (ihx rfl).append hy
    · simpa using hx.append (ihy rfl)
  | @enclosed inner h ih =>
    -- it stands before the pair, behind it, or inside
    obtain ⟨rfl, rfl⟩ | ⟨front, rfl, htail⟩ := List.append_eq_cons_iff.1 htext
    · simpa using hz.append h.enclosed
    · change inner ++ ['>'] = front ++ ys at htail
      obtain rfl | ⟨back, c, rfl⟩ := List.eq_nil_or_concat ys
      · rw [List.append_nil] at htail
        simpa [← htail] using h.enclosed.append hz
      · rw [List.concat_eq_append, ← List.append_assoc] at htail
        obtain ⟨hinner, hc⟩ := List.append_inj' htail.symm rfl
        cases hc
        simpa using (ih hinner).enclosed

/-! ### Counting open brackets -/

/-- So many brackets being open before the text, each one that closes finds an open one, and behind
the text none is open. -/
def closesBrackets : Nat → List Char → Bool
  | depth, [] => depth == 0
  | depth, c :: r =>
    if c = '<' then closesBrackets (depth + 1) r
    else if c = '>' then 0 < depth && closesBrackets (depth - 1) r
    else closesBrackets depth r

theorem paired_of_closesBrackets {depth : Nat} {xs : List Char} (h : closesBrackets depth xs) :
    Paired (List.replicate depth '<' ++ xs) := by
  -- a closing bracket and the last open one are a pair to put in, as any other character is
  fun_induction closesBrackets depth xs with
  | case1 depth =>
    obtain rfl := beq_iff_eq.1 h
    exact .nil
  | case2 depth r ih =>
    have hrest := ih h
    rwa [List.replicate_succ', List.append_assoc] at hrest
  | case3 depth r _ ih =>
    rw [Bool.and_eq_true, decide_eq_true_iff] at h
    obtain ⟨k, rfl⟩ := Nat.exists_eq_succ_of_ne_zero (Nat.ne_of_gt h.1)
    have hrest := (ih h.2).insert (.enclosed .nil)
    simpa [List.replicate_succ'] using hrest
  | case4 depth c r hopen hclose ih =>
    simpa using (ih h).insert (.plain hopen hclose)

theorem Paired.closesBrackets_append {xs : List Char} (h : Paired xs) (depth : Nat) (ys : List Char) :
    closesBrackets depth (xs ++ ys) = closesBrackets depth ys := by
  induction h generalizing depth ys with
  | nil => rfl
  | plain hopen hclose => rw [List.singleton_append, closesBrackets, if_neg hopen, if_neg hclose]
  | append _ _ ihx ihy => rw [List.append_assoc, ihx, ihy]
  | enclosed _ ih =>
    rw [List.append_assoc, List.cons_append, closesBrackets, if_pos rfl, ih]
    simp [closesBrackets]

theorem paired_iff_closesBrackets {xs : List Char} : Paired xs ↔ closesBrackets 0 xs := by
  constructor
  · intro h
    have hnil := h.closesBrackets_append 0 []
    rwa [List.append_nil] at hnil
  · exact paired_of_closesBrackets

instance (xs : List Char) : Decidable (Paired xs) :=
  decidable_of_iff _ paired_iff_closesBrackets.symm

/-! ### Erasing arguments -/

@[simp] theorem dropArguments_nil (depth : Nat) : dropArguments depth [] = [] := rfl

@[simp] theorem dropArguments_open (depth : Nat) (r : List Char) :
    dropArguments depth ('<' :: r) = dropArguments (depth + 1) r := rfl

@[simp] theorem dropArguments_close (depth : Nat) (r : List Char) :
    dropArguments depth ('>' :: r) = dropArguments (depth - 1) r := rfl

theorem dropArguments_plain {c : Char} (hopen : c ≠ '<') (hclose : c ≠ '>') (depth : Nat)
    (r : List Char) : dropArguments depth (c :: r) =
      if 0 < depth ∨ isBlank c then dropArguments depth r else c :: dropArguments depth r := by
  rw [dropArguments, if_neg hopen, if_neg hclose]

theorem dropArguments_blank {c : Char} (hc : isBlank c) (depth : Nat) (r : List Char) :
    dropArguments depth (c :: r) = dropArguments depth r := by
  have hopen : c ≠ '<' := by rintro rfl; exact absurd hc (by decide)
  have hclose : c ≠ '>' := by rintro rfl; exact absurd hc (by decide)
  rw [dropArguments_plain hopen hclose, if_pos (Or.inr hc)]

theorem dropArguments_eq_self {cs : List Char} (hblank : ∀ c ∈ cs, isBlank c = false)
    (hopen : '<' ∉ cs) (hclose : '>' ∉ cs) : dropArguments 0 cs = cs := by
  induction cs with
  | nil => rfl
  | cons c r ih =>
    obtain ⟨hc, hr⟩ := List.forall_mem_cons.1 hblank
    obtain ⟨hc', hr'⟩ := not_or.1 (mt List.mem_cons.2 hopen)
    obtain ⟨hc'', hr''⟩ := not_or.1 (mt List.mem_cons.2 hclose)
    rw [dropArguments_plain (Ne.symm hc') (Ne.symm hc''), if_neg (by simp [hc]), ih hr hr' hr'']

theorem Paired.dropArguments_append {xs : List Char} (h : Paired xs) (depth : Nat)
    (ys : List Char) :
    dropArguments depth (xs ++ ys) = dropArguments depth xs ++ dropArguments depth ys := by
  induction h generalizing depth ys with
  | nil => rfl
  | plain hopen hclose =>
    rw [List.singleton_append, dropArguments_plain hopen hclose, dropArguments_plain hopen hclose]
    split <;> rfl
  | append _ _ ihx ihy => rw [List.append_assoc, ihx, ihy, ihx, List.append_assoc]
  | enclosed _ ih =>
    simp only [List.cons_append, List.append_assoc, dropArguments_open, ih, dropArguments_close,
      List.nil_append, Nat.add_sub_cancel, dropArguments_nil]

theorem Paired.dropArguments_succ {xs : List Char} (h : Paired xs) (depth : Nat) :
    dropArguments (depth + 1) xs = [] := by
  induction h generalizing depth with
  | nil => rfl
  | plain hopen hclose =>
    rw [dropArguments_plain hopen hclose, if_pos (Or.inl (Nat.succ_pos depth))]
    rfl
  | append hx _ ihx ihy => rw [hx.dropArguments_append, ihx, ihy, List.append_nil]
  | enclosed h ih =>
    rw [List.cons_append, dropArguments_open, h.dropArguments_append, ih]
    rfl

/-! ### Erasing brackets and dots -/

theorem count_dropBrackets {c : Char} (hopen : c ≠ '[') (hclose : c ≠ ']') (cs : List Char) :
    (dropBrackets cs).count c = cs.count c := by
  fun_induction dropBrackets cs with
  | case1 r ih => simp [ih, Ne.symm hopen, Ne.symm hclose]
  | case2 d r _ ih => simp [List.count_cons, ih]
  | case3 => rfl

theorem count_dropEllipses {c : Char} (hc : c ≠ '.') (cs : List Char) :
    (dropEllipses cs).count c = cs.count c := by
  fun_induction dropEllipses cs with
  | case1 r ih => simp [ih, Ne.symm hc]
  | case2 d r _ ih => simp [List.count_cons, ih]
  | case3 => rfl

theorem dropBrackets_cons {c : Char} (hc : c ≠ '[') (r : List Char) :
    dropBrackets (c :: r) = c :: dropBrackets r :=
  dropBrackets.eq_2 c r fun _ heq => absurd heq hc

theorem dropBrackets_append {cs : List Char} (h : '[' ∉ cs) (r : List Char) :
    dropBrackets (cs ++ r) = cs ++ dropBrackets r := by
  induction cs with
  | nil => rfl
  | cons c cs ih =>
    obtain ⟨hc, hcs⟩ := not_or.1 (mt List.mem_cons.2 h)
    rw [List.cons_append, dropBrackets_cons (Ne.symm hc), ih hcs, List.cons_append]

theorem dropBrackets_pairs (n : Nat) (r : List Char) :
    dropBrackets ((List.replicate n ['[', ']']).flatten ++ r) = dropBrackets r := by
  induction n with
  | zero => rfl
  | succ n ih => rwa [List.replicate_succ, List.flatten_cons, List.append_assoc]

theorem dropEllipses_append {cs : List Char} (h : '.' ∉ cs) (r : List Char) :
    dropEllipses (cs ++ r) = cs ++ dropEllipses r := by
  induction cs with
  | nil => rfl
  | cons c cs ih =>
    obtain ⟨hc, hcs⟩ := not_or.1 (mt List.mem_cons.2 h)
    rw [List.cons_append, dropEllipses.eq_2 _ _ fun _ heq => absurd heq (Ne.symm hc), ih hcs,
      List.cons_append]

theorem dropEllipses_dot {c : Char} (hc : c ≠ '.') (r : List Char) :
    dropEllipses ('.' :: c :: r) = '.' :: dropEllipses (c :: r) :=
  dropEllipses.eq_2 _ _ fun _ _ heq => absurd (List.cons.inj heq).1 hc

theorem count_eraseType {c : Char} (hopen : c ≠ '[') (hclose : c ≠ ']') (hdot : c ≠ '.')
    (text : String) :
    (eraseType text).toList.count c = (dropArguments 0 text.toList).count c := by
  rw [eraseType, String.toList_ofList, count_dropEllipses hdot, count_dropBrackets hopen hclose]

end PackageModularity

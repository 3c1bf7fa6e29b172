import Mathlib.Data.List.Basic

/-!
Printed text that can be read back. A printer is delimited when its output, followed by
anything that does not continue a word, determines the printed value and what follows.
Words, numbers, options, lists and labelled fields of delimited printers are delimited.
-/

namespace Delimited

universe u
variable {α : Type u}

def Stops (r : List Char) : Prop := ∀ c, r.head? = some c → c.isAlphanum = false

def IsDelimited (print : α → List Char) : Prop :=
  ∀ a b r s, Stops r → Stops s → print a ++ r = print b ++ s → a = b ∧ r = s

theorem stops_cons {c : Char} (h : c.isAlphanum = false) (r : List Char) : Stops (c :: r) := by
  intro d hd
  cases hd
  exact h

theorem takeWhile_word {w r : List Char} (hw : ∀ c ∈ w, c.isAlphanum = true) (hr : Stops r) :
    (w ++ r).takeWhile Char.isAlphanum = w := by
  induction w with
  | nil =>
    cases r with
    | nil => rfl
    | cons c r =>
      have hc := hr c rfl
      simp [hc]
  | cons c w ih =>
    have hc := hw c List.mem_cons_self
    simp [hc, ih fun d hd => hw d (List.mem_cons_of_mem c hd)]

theorem isDelimited_of_words {print : α → List Char} (hinj : Function.Injective print)
    (hall : ∀ a, (print a).all Char.isAlphanum = true) : IsDelimited print := by
  have hword : ∀ a, ∀ c ∈ print a, c.isAlphanum = true := fun a => List.all_eq_true.mp (hall a)
  intro a b r s hr hs heq
  have hprint : print a = print b := by
    rw [← takeWhile_word (hword a) hr, heq, takeWhile_word (hword b) hs]
  rw [hprint] at heq
  exact ⟨hinj hprint, List.append_cancel_left heq⟩

def nat (n : Nat) : List Char := Nat.toDigits 10 n

theorem isDelimited_nat : IsDelimited nat := by
  apply isDelimited_of_words
  · intro m n h
    have hback := congrArg (fun w => Nat.ofDigitChars 10 w 0) h
    simpa only [nat, Nat.ofDigitChars_ten_toDigits] using hback
  · intro n
    rw [List.all_eq_true]
    intro c hc
    have hdigit : c.isDigit = true := Nat.isDigit_of_mem_toDigits (by decide) (by decide) hc
    simp [Char.isAlphanum, hdigit]

def field (label : String) (printed rest : List Char) : List Char :=
  label.toList ++ (printed ++ rest)

theorem field_append (label : String) (printed rest r : List Char) :
    field label printed rest ++ r = field label printed (rest ++ r) := by
  simp only [field, List.append_assoc]

theorem field_inj {print : α → List Char} (hprint : IsDelimited print) {label : String}
    {a b : α} {r s : List Char} (hr : Stops r) (hs : Stops s)
    (h : field label (print a) r = field label (print b) s) : a = b ∧ r = s :=
  hprint a b r s hr hs (List.append_cancel_left h)

def separates (label : String) : Bool :=
  match label.toList with
  | c :: _ => !c.isAlphanum
  | [] => false

theorem stops_append_of_separates {label : String} (h : separates label = true) (r : List Char) :
    Stops (label.toList ++ r) := by
  unfold separates at h
  split at h
  · rename_i c l hl
    rw [hl]
    exact stops_cons (by simpa using h) _
  · cases h

theorem field_step {print : α → List Char} (hprint : IsDelimited print) {label next : String}
    {a b : α} {r s : List Char} (hnext : separates next = true)
    (h : field label (print a) (next.toList ++ r) = field label (print b) (next.toList ++ s)) :
    a = b ∧ next.toList ++ r = next.toList ++ s :=
  field_inj hprint (stops_append_of_separates hnext r) (stops_append_of_separates hnext s) h

theorem field_last {print : α → List Char} (hprint : IsDelimited print) {label close : String}
    {a b : α} (hclose : separates close = true)
    (h : field label (print a) close.toList = field label (print b) close.toList) : a = b := by
  have hstops : Stops close.toList := by
    simpa using stops_append_of_separates hclose []
  exact (field_inj hprint hstops hstops h).1

theorem isDelimited_comp {β : Type u} {print : α → List Char} (hprint : IsDelimited print)
    {f : β → α} (hf : Function.Injective f) : IsDelimited fun b => print (f b) := by
  intro a b r s hr hs heq
  obtain ⟨hab, hrs⟩ := hprint (f a) (f b) r s hr hs heq
  exact ⟨hf hab, hrs⟩

def option (print : α → List Char) : Option α → List Char
  | none => "None".toList
  | some a => field "Some(" (print a) [')']

theorem isDelimited_option {print : α → List Char} (hprint : IsDelimited print) :
    IsDelimited (option print) := by
  intro a b r s hr hs heq
  have hparen : ∀ t : List Char, Stops (')' :: t) := stops_cons (by decide)
  cases a with
  | none =>
    cases b with
    | none => exact ⟨rfl, List.append_cancel_left heq⟩
    | some b => cases heq
  | some a =>
    cases b with
    | none => cases heq
    | some b =>
      simp only [option, field_append] at heq
      obtain ⟨hab, hrest⟩ := field_inj hprint (hparen r) (hparen s) heq
      exact ⟨congrArg some hab, (List.cons.inj hrest).2⟩

def listTail (print : α → List Char) : List α → List Char
  | [] => [']']
  | a :: l => ',' :: ' ' :: (print a ++ listTail print l)

def list (print : α → List Char) : List α → List Char
  | [] => ['[', ']']
  | a :: l => '[' :: (print a ++ listTail print l)

theorem stops_listTail (print : α → List Char) (l : List α) (r : List Char) :
    Stops (listTail print l ++ r) := by
  cases l with
  | nil => exact stops_cons (by decide) _
  | cons a l => exact stops_cons (by decide) _

theorem listTail_inj {print : α → List Char} (hprint : IsDelimited print) {l m : List α}
    {r s : List Char} (h : listTail print l ++ r = listTail print m ++ s) : l = m ∧ r = s := by
  induction l generalizing m with
  | nil =>
    cases m with
    | nil => exact ⟨rfl, List.append_cancel_left h⟩
    | cons b m => cases h
  | cons a l ih =>
    cases m with
    | nil => cases h
    | cons b m =>
      simp only [listTail, List.cons_append, List.cons.injEq, true_and,
        List.append_assoc] at h
      obtain ⟨hab, hrest⟩ :=
        hprint a b _ _ (stops_listTail print l r) (stops_listTail print m s) h
      obtain ⟨hlm, hrs⟩ := ih hrest
      exact ⟨by rw [hab, hlm], hrs⟩

theorem isDelimited_list {print : α → List Char} (hprint : IsDelimited print)
    (hopen : ∀ a r s, print a ++ r ≠ ']' :: s) : IsDelimited (list print) := by
  intro l m r s _ _ heq
  cases l with
  | nil =>
    cases m with
    | nil => exact ⟨rfl, List.append_cancel_left heq⟩
    | cons b m =>
      simp only [list, List.cons_append, List.nil_append, List.cons.injEq, true_and,
        List.append_assoc] at heq
      exact absurd heq.symm (hopen b _ _)
  | cons a l =>
    cases m with
    | nil =>
      simp only [list, List.cons_append, List.nil_append, List.cons.injEq, true_and,
        List.append_assoc] at heq
      exact absurd heq (hopen a _ _)
    | cons b m =>
      simp only [list, List.cons_append, List.cons.injEq, true_and, List.append_assoc] at heq
      obtain ⟨hab, hrest⟩ :=
        hprint a b _ _ (stops_listTail print l r) (stops_listTail print m s) heq
      obtain ⟨hlm, hrs⟩ := listTail_inj hprint hrest
      exact ⟨by rw [hab, hlm], hrs⟩

end Delimited

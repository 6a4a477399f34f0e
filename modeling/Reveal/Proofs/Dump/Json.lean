import Reveal.Dump.Json
import Reveal.Format
import Reveal.Proofs.Dump.Tree
/-!
# JSON can be read back

No two trees are written alike. What is shown is a little more, so that it goes through by induction:
a tree and what stands behind it can be told from their text, as long as no digit stands behind the tree
(`cancels`). With what a tree tells of a document, the JSON text does the same.
-/
namespace Reveal.Dump.Json

variable {c : Char} {s t a b : List Char} {indent : Nat}

/-! ## Quoted texts -/

/-- The value of a hexadecimal digit. -/
def hexValue (c : Char) : Nat :=
  if c.isDigit then c.toNat - '0'.toNat else c.toNat - 'a'.toNat + 10

/-- The character that stands behind a backslash for another one. -/
def shortEscape : Char → Char
  | 'b' => '\x08'
  | 'f' => '\x0C'
  | 'n' => '\n'
  | 'r' => '\r'
  | 't' => '\t'
  | c => c

/-- The first character of an escaped text; none at the closing quote. -/
def firstChar? : List Char → Option Char
  | '"' :: _ => none
  | '\\' :: 'u' :: _ :: _ :: x :: y :: _ => some (Char.ofNat (16 * hexValue x + hexValue y))
  | '\\' :: c :: _ => some (shortEscape c)
  | c :: _ => some c
  | [] => none

/-- Below U+0020 two digits are zero, and the other two tell the character. -/
theorem lowHex_eq : ∀ n < 0x20, lowHex n = ['0', '0', Nat.digitChar (n / 16), Nat.digitChar (n % 16)] ∧
    16 * hexValue (Nat.digitChar (n / 16)) + hexValue (Nat.digitChar (n % 16)) = n := by
  decide +kernel

theorem firstChar?_escapeChar (c : Char) (s : List Char) : firstChar? (escapeChar c ++ s) = some c := by
  unfold escapeChar
  split
  case h_8 hquote hslash _ _ _ _ _ =>
    split
    · rename_i hlow
      obtain ⟨hdigits, hvalue⟩ := lowHex_eq c.toNat hlow
      simp only [hdigits, List.cons_append, List.nil_append, firstChar?, hvalue, Char.ofNat_toNat]
    · unfold firstChar?
      split <;> simp_all
  all_goals rfl

/-- Escaped texts are told apart from what follows their closing quotes. -/
theorem flatMap_escapeChar_cancel (h : s.flatMap escapeChar ++ '"' :: a = t.flatMap escapeChar ++ '"' :: b) :
    s = t ∧ a = b := by
  induction s generalizing t with
  | nil =>
    cases t with
    | nil => exact ⟨rfl, (List.cons_eq_cons.1 h).2⟩
    | cons d t =>
      have hfirst := congrArg firstChar? h
      rw [List.flatMap_cons, List.append_assoc, firstChar?_escapeChar] at hfirst
      cases hfirst
  | cons c s ih =>
    cases t with
    | nil =>
      have hfirst := congrArg firstChar? h
      rw [List.flatMap_cons, List.append_assoc, firstChar?_escapeChar] at hfirst
      cases hfirst
    | cons d t =>
      rw [List.flatMap_cons, List.flatMap_cons, List.append_assoc, List.append_assoc] at h
      have hfirst := congrArg firstChar? h
      rw [firstChar?_escapeChar, firstChar?_escapeChar, Option.some.injEq] at hfirst
      subst hfirst
      obtain ⟨rfl, rfl⟩ := ih (List.append_cancel_left h)
      exact ⟨rfl, rfl⟩

theorem toList_quote (s : String) : (quote s).toList = '"' :: (s.toList.flatMap escapeChar ++ ['"']) := by
  simp [quote]

theorem quote_cancel {x y : String} (h : (quote x).toList ++ a = (quote y).toList ++ b) : x = y ∧ a = b := by
  simp only [toList_quote, List.cons_append, List.append_assoc, List.nil_append, List.cons.injEq, true_and] at h
  obtain ⟨hs, hab⟩ := flatMap_escapeChar_cancel h
  exact ⟨String.toList_inj.1 hs, hab⟩

/-! ## Numbers -/

/-- No digit stands at the head, so a number in front of it ends there. -/
def Halts (s : List Char) : Prop := ∀ c ∈ s.head?, c.isDigit = false

theorem halts_of_head? {c : Char} (h : s.head? = some c) (hc : c.isDigit = false) : Halts s := by
  intro d hd
  rw [h] at hd
  cases hd
  exact hc

theorem takeWhile_toString_append (n : Nat) (h : Halts a) :
    ((toString n).toList ++ a).takeWhile Char.isDigit = (toString n).toList := by
  rw [List.takeWhile_append_of_pos fun c => Ident.isDigit_of_mem_toString]
  cases a with
  | nil => simp
  | cons c a => simp [h c rfl]

theorem toString_cancel {m n : Nat} (ha : Halts a) (hb : Halts b)
    (h : (toString m).toList ++ a = (toString n).toList ++ b) : m = n ∧ a = b := by
  have hdigits := congrArg (List.takeWhile Char.isDigit) h
  rw [takeWhile_toString_append m ha, takeWhile_toString_append n hb] at hdigits
  obtain rfl : m = n := Nat.repr_injective (String.toList_inj.1 hdigits)
  exact ⟨rfl, List.append_cancel_left h⟩

/-! ## Members in brackets -/

theorem toList_newLine (indent : Nat) : (newLine indent).toList = '\n' :: List.replicate indent ' ' := by
  simp [newLine]

/-- What stands behind the last member: a new line. -/
def Breaks (s : List Char) : Prop := s.head? = some '\n'

theorem breaks_newLine : Breaks ((newLine indent).toList ++ a) := by
  rw [toList_newLine]
  rfl

theorem Breaks.halts (h : Breaks a) : Halts a := halts_of_head? h (by decide)

theorem Breaks.ne_comma (h : Breaks a) : a ≠ ',' :: b := by
  rintro rfl
  cases h

section Members

variable {α : Type} {w : α → List Char} {x : α} {xs ys : List α} {opening closing : Char}

/-- `Cancels w x`: the text of `x` ends before what stands behind it, and only `x` has it. -/
def Cancels (w : α → List Char) (x : α) : Prop :=
  ∀ ⦃y a b⦄, Halts a → Halts b → w x ++ a = w y ++ b → x = y ∧ a = b

/-- Members behind the first, each with a comma and on a line of its own. -/
def behind (indent : Nat) (w : α → List Char) (xs : List α) : List Char :=
  xs.flatMap fun x => ',' :: ((newLine indent).toList ++ w x)

/-- Members in brackets, further in than these. -/
def bracketed (opening closing : Char) (indent : Nat) (w : α → List Char) : List α → List Char
  | [] => [opening, closing]
  | x :: xs => opening :: ((newLine (indent + 2)).toList ++ (w x ++ (behind (indent + 2) w xs ++
      ((newLine indent).toList ++ [closing]))))

theorem behind_cons_append : behind indent w (x :: xs) ++ a =
    ',' :: ((newLine indent).toList ++ (w x ++ (behind indent w xs ++ a))) := by
  simp [behind]

theorem bracketed_cons_append : bracketed opening closing indent w (x :: xs) ++ a =
    opening :: ((newLine (indent + 2)).toList ++ (w x ++ (behind (indent + 2) w xs ++
      ((newLine indent).toList ++ closing :: a)))) := by
  simp [bracketed]

theorem halts_behind (h : Breaks a) : Halts (behind indent w xs ++ a) := by
  cases xs with
  | nil => exact h.halts
  | cons x xs => exact halts_of_head? (c := ',') (by rw [behind_cons_append]; rfl) (by decide)

theorem behind_cancel (hxs : ∀ x ∈ xs, Cancels w x) (ha : Breaks a) (hb : Breaks b)
    (h : behind indent w xs ++ a = behind indent w ys ++ b) : xs = ys ∧ a = b := by
  induction xs generalizing ys with
  | nil =>
    cases ys with
    | nil => exact ⟨rfl, h⟩
    | cons y ys =>
      rw [behind_cons_append] at h
      exact absurd h ha.ne_comma
  | cons x xs ih =>
    obtain ⟨hx, hxs⟩ := List.forall_mem_cons.1 hxs
    cases ys with
    | nil =>
      rw [behind_cons_append] at h
      exact absurd h.symm hb.ne_comma
    | cons y ys =>
      rw [behind_cons_append, behind_cons_append, List.cons_eq_cons] at h
      obtain ⟨rfl, hrest⟩ := hx (halts_behind ha) (halts_behind hb) (List.append_cancel_left h.2)
      obtain ⟨rfl, rfl⟩ := ih hxs hrest
      exact ⟨rfl, rfl⟩

-- Behind the opening bracket the members go on as they do behind a comma.
theorem bracketed_cancel (hclosing : closing ≠ '\n') (hxs : ∀ x ∈ xs, Cancels w x)
    (h : bracketed opening closing indent w xs ++ a = bracketed opening closing indent w ys ++ b) :
    xs = ys ∧ a = b := by
  cases xs with
  | nil =>
    cases ys with
    | nil => simpa [bracketed] using h
    | cons y ys => simp [bracketed, toList_newLine, hclosing] at h
  | cons x xs =>
    cases ys with
    | nil => simp [bracketed, toList_newLine, hclosing.symm] at h
    | cons y ys =>
      rw [bracketed_cons_append, bracketed_cons_append, List.cons_eq_cons] at h
      have hcomma : behind (indent + 2) w (x :: xs) ++ ((newLine indent).toList ++ closing :: a) =
          behind (indent + 2) w (y :: ys) ++ ((newLine indent).toList ++ closing :: b) := by
        rw [behind_cons_append, behind_cons_append, h.2]
      obtain ⟨hsame, hrest⟩ := behind_cancel hxs breaks_newLine breaks_newLine hcomma
      exact ⟨hsame, (List.cons.inj (List.append_cancel_left hrest)).2⟩

end Members

/-! ## Trees -/

def treeText (indent : Nat) (t : Tree) : List Char :=
  (writeTree indent t).toList

def fieldText (indent : Nat) (field : String × Tree) : List Char :=
  (quote field.1).toList ++ ':' :: ' ' :: treeText indent field.2

theorem toList_writeItems (items : List Tree) :
    (writeItems indent items).toList = behind indent (treeText indent) items := by
  induction items with
  | nil => rfl
  | cons item rest ih => simp [writeItems, ih, behind, treeText]

theorem toList_writeFields (fields : List (String × Tree)) :
    (writeFields indent fields).toList = behind indent (fieldText indent) fields := by
  induction fields with
  | nil => rfl
  | cons field rest ih => simp [writeFields, ih, behind, fieldText, treeText]

theorem treeText_list (items : List Tree) :
    treeText indent (.list items) = bracketed '[' ']' indent (treeText (indent + 2)) items := by
  cases items with
  | nil => simp [treeText, writeTree, bracketed]
  | cons item rest => simp [treeText, writeTree, toList_writeItems, bracketed]

theorem treeText_record (fields : List (String × Tree)) :
    treeText indent (.record fields) = bracketed '\x7b' '\x7d' indent (fieldText (indent + 2)) fields := by
  cases fields with
  | nil => simp [treeText, writeTree, bracketed]
  | cons field rest => simp [treeText, fieldText, writeTree, toList_writeFields, bracketed]

/-- The sorts of trees, numbered. -/
def sort : Tree → Nat
  | .number _ => 0
  | .text _ => 1
  | .list _ => 2
  | .record _ => 3

/-- The sort of a tree, read off the first character of its text. -/
def sortOfHead : Option Char → Nat
  | some '"' => 1
  | some '[' => 2
  | some '\x7b' => 3
  | _ => 0

theorem sortOfHead_digit (h : c.isDigit = true) : sortOfHead (some c) = 0 := by
  unfold sortOfHead
  split
  case h_4 => rfl
  all_goals
    rename_i heq
    cases heq
    cases h

theorem sortOfHead_treeText (indent : Nat) (t : Tree) (a : List Char) :
    sortOfHead (treeText indent t ++ a).head? = sort t := by
  cases t with
  | number n =>
    obtain ⟨c, s, hn, hc⟩ := Ident.exists_toString_eq_cons n
    rw [treeText, writeTree, hn]
    exact sortOfHead_digit hc
  | text s =>
    rw [treeText, writeTree, toList_quote]
    rfl
  | list items =>
    rw [treeText_list]
    cases items <;> rfl
  | record fields =>
    rw [treeText_record]
    cases fields <;> rfl

theorem sort_eq_of_append {t u : Tree} (h : treeText indent t ++ a = treeText indent u ++ b) :
    sort t = sort u := by
  rw [← sortOfHead_treeText indent t a, h, sortOfHead_treeText]

theorem cancels_field {field : String × Tree} (h : Cancels (treeText indent) field.2) :
    Cancels (fieldText indent) field := by
  intro other a b ha hb heq
  rw [fieldText, fieldText, List.append_assoc, List.append_assoc] at heq
  obtain ⟨hkey, hrest⟩ := quote_cancel heq
  simp only [List.cons_append, List.cons.injEq, true_and] at hrest
  obtain ⟨hvalue, hab⟩ := h ha hb hrest
  exact ⟨Prod.ext hkey hvalue, hab⟩

/-- A tree and what stands behind it are told from their text. -/
theorem cancels (t : Tree) (indent : Nat) : Cancels (treeText indent) t := by
  induction t generalizing indent with
  | number m =>
    intro u a b ha hb h
    have hsort := sort_eq_of_append h
    cases u with
    | number n =>
      obtain ⟨rfl, rfl⟩ := toString_cancel ha hb (by simpa [treeText, writeTree] using h)
      exact ⟨rfl, rfl⟩
    | _ => cases hsort
  | text s =>
    intro u a b ha hb h
    have hsort := sort_eq_of_append h
    cases u with
    | text t =>
      obtain ⟨rfl, rfl⟩ := quote_cancel (by simpa only [treeText, writeTree] using h)
      exact ⟨rfl, rfl⟩
    | _ => cases hsort
  | list items ih =>
    intro u a b ha hb h
    have hsort := sort_eq_of_append h
    cases u with
    | list items' =>
      rw [treeText_list, treeText_list] at h
      obtain ⟨rfl, rfl⟩ := bracketed_cancel (by decide) (fun item hitem => ih item hitem (indent + 2)) h
      exact ⟨rfl, rfl⟩
    | _ => cases hsort
  | record fields ih =>
    intro u a b ha hb h
    have hsort := sort_eq_of_append h
    cases u with
    | record fields' =>
      rw [treeText_record, treeText_record] at h
      obtain ⟨rfl, rfl⟩ := bracketed_cancel (by decide)
        (fun field hfield => cancels_field (ih field hfield (indent + 2))) h
      exact ⟨rfl, rfl⟩
    | _ => cases hsort

theorem writeTree_inj {t u : Tree} : writeTree indent t = writeTree indent u ↔ t = u := by
  refine ⟨fun h => ?_, fun h => by rw [h]⟩
  exact (cancels t indent (a := []) (b := []) (by simp [Halts]) (by simp [Halts])
    (by rw [treeText, treeText, h])).1

theorem write_eq_iff {d d' : Document} : write d = write d' ↔ List.Forall₂ Event.Alike d.events d'.events := by
  rw [write, write, writeTree_inj, Tree.ofDocument_eq_iff]

/-- Debugging makes no difference to the JSON of a document. Two documents have the same JSON exactly if
they have as many events and these are alike, one by one: at the same position, under the same
identifiers, of the same kind, with the same texts and identifiers. Only the fragments that no link opens
are not told apart. -/
theorem json_faithful (d d' : Document) (debug debug' : Bool) :
    Format.json.write debug d = Format.json.write debug' d ∧
    ((∃ text, Format.json.write debug d = .ok text ∧ Format.json.write debug' d' = .ok text) ↔
      List.Forall₂ Event.Alike d.events d'.events) := by
  refine ⟨rfl, ?_⟩
  rw [← write_eq_iff]
  constructor
  · rintro ⟨text, h, h'⟩
    exact (Except.ok.inj h).trans (Except.ok.inj h').symm
  · intro h
    exact ⟨write d, rfl, congrArg Except.ok h.symm⟩

end Reveal.Dump.Json

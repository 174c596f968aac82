import Mathlib.Algebra.Order.Field.Rat
import Mathlib.Data.List.Infix
import Mathlib.Data.List.Sort
import ContextLattice.Foundation.Python

/-!
# Searching text

The tests a lexical search is made of, the patterns and the string literals of SQL, and a ranking: a
stable sort by score and a cut.
-/

namespace Foundation

/-! ### Substrings -/

def isIn (s t : String) : Bool := decide (s.toList <:+: t.toList)

def startswith (t s : String) : Bool := decide (s.toList <+: t.toList)

theorem startswith_iff {t s : String} : startswith t s = true ↔ s.toList <+: t.toList := by
  rw [startswith, decide_eq_true_eq]

def splitOnce (sep : List Char) : List Char → Option (List Char × List Char)
  | [] => none
  | c :: cs =>
    if sep <+: c :: cs then some ([], (c :: cs).drop sep.length)
    else (splitOnce sep cs).map fun p => (c :: p.1, p.2)

theorem splitOnce_eq_none {sep l : List Char} {c : Char} (hsep : c ∈ sep) (hl : c ∉ l) :
    splitOnce sep l = none := by
  induction l with
  | nil => rfl
  | cons d l ih =>
    rw [splitOnce, if_neg fun h => hl (h.subset hsep), ih fun h => hl (List.mem_cons_of_mem d h)]
    rfl

def utf16Length (s : String) : ℕ := (s.toList.map fun c => if c.val < 0x10000 then 1 else 2).sum

def isLineBreak (c : Char) : Bool :=
  let n := c.toNat
  (10 ≤ n && n ≤ 13) || (28 ≤ n && n ≤ 30) || n == 0x85 || n == 0x2028 || n == 0x2029

def textLines (s : String) : List String :=
  ((s.toList.splitOnP isLineBreak).map fun l => strip (String.ofList l)).filter (· ≠ "")

def headerField (name : List Char) : List Char → Option String
  | [] => none
  | c :: cs =>
    let run := if name <+: c :: cs then
      ((c :: cs).drop name.length).takeWhile fun d => !isSpace d else []
    if run = [] then headerField name cs else some (String.ofList run)

def joinText (sep : String) (parts : List String) : String :=
  String.ofList (sep.toList.intercalate (parts.map String.toList))

/-! ### Joined texts

Two texts joined by a separator can be read back in another way if the separator occurs in
them. -/

variable {α : Type*}

def Shifts (sep x y x' y' : List α) : Prop :=
  ∃ u, u ≠ [] ∧ x = x' ++ u ∧ sep ++ y' = u ++ (sep ++ y)

def Confused (sep x y x' y' : List α) : Prop :=
  (x = x' ∧ y = y') ∨ Shifts sep x y x' y' ∨ Shifts sep x' y' x y

theorem joined_eq_iff {sep x y x' y' : List α} :
    x ++ (sep ++ y) = x' ++ (sep ++ y') ↔ Confused sep x y x' y' := by
  constructor
  · intro h
    rcases List.append_eq_append_iff.mp h with ⟨u, hx', hy⟩ | ⟨u, hx, hy⟩
    · by_cases hu : u = []
      · subst hu
        rw [List.append_nil] at hx'
        exact .inl ⟨hx'.symm, List.append_cancel_left hy⟩
      · exact .inr (.inr ⟨u, hu, hx', hy⟩)
    · by_cases hu : u = []
      · subst hu
        rw [List.append_nil] at hx
        exact .inl ⟨hx, (List.append_cancel_left hy).symm⟩
      · exact .inr (.inl ⟨u, hu, hx, hy⟩)
  · rintro (⟨rfl, rfl⟩ | ⟨u, -, rfl, hy⟩ | ⟨u, -, rfl, hy⟩)
    · rfl
    · rw [List.append_assoc, hy]
    · rw [List.append_assoc, hy]

instance [DecidableEq α] (sep x y x' y' : List α) : Decidable (Confused sep x y x' y') :=
  decidable_of_iff _ joined_eq_iff

/-! ### SQL -/

def like : List Char → List Char → Bool
  | [], text => text.isEmpty
  | c :: pattern, text =>
    if c = '%' then text.tails.any (like pattern)
    else (text.head?.any fun d => c = '_' || c = d) && like pattern text.tail

def escapeQuotes (l : List Char) : List Char :=
  l.flatMap fun c => if c = '\'' then ['\'', '\''] else [c]

/-- The characters of a literal, from behind its opening quote to its closing one, and what follows;
`none` if it is not closed. -/
def readLiteral : List Char → Option (List Char × List Char)
  | [] => none
  | c :: cs =>
    if c = '\'' then
      match cs with
      | d :: cs' => if d = '\'' then (readLiteral cs').map fun p => ('\'' :: p.1, p.2)
        else some ([], d :: cs')
      | [] => some ([], [])
    else (readLiteral cs).map fun p => (c :: p.1, p.2)

theorem readLiteral_escapeQuotes (l : List Char) {rest : List Char}
    (hrest : rest.head? ≠ some '\'') :
    readLiteral (escapeQuotes l ++ '\'' :: rest) = some (l, rest) := by
  induction l with
  | nil =>
    cases rest with
    | nil => rfl
    | cons d rest =>
      have hd : d ≠ '\'' := fun h => hrest (by rw [h]; rfl)
      simp [escapeQuotes, readLiteral, hd]
  | cons c l ih =>
    rw [escapeQuotes, List.flatMap_cons, ← escapeQuotes]
    by_cases hc : c = '\''
    · rw [if_pos hc, hc]
      simp [readLiteral, ih]
    · rw [if_neg hc, List.cons_append, List.nil_append, List.cons_append, readLiteral.eq_def]
      simp [hc, ih]

def literalValue (l : List Char) : List Char :=
  ((readLiteral (escapeQuotes l ++ ['\''])).map Prod.fst).getD []

@[simp] theorem literalValue_eq (l : List Char) : literalValue l = l := by
  rw [literalValue, readLiteral_escapeQuotes l (by simp)]
  rfl

theorem like_append {p q text : List Char} :
    like (p ++ q) text = true ↔ ∃ u v, text = u ++ v ∧ like p u = true ∧ like q v = true := by
  induction p generalizing text with
  | nil =>
    constructor
    · exact fun h => ⟨[], text, rfl, rfl, h⟩
    · rintro ⟨u, v, rfl, hu, hv⟩
      rw [like, List.isEmpty_iff] at hu
      rwa [hu]
  | cons c p ih =>
    rw [List.cons_append, like]
    by_cases hc : c = '%'
    · rw [if_pos hc, List.any_eq_true]
      constructor
      · rintro ⟨rest, hrest, hlike⟩
        obtain ⟨skipped, rfl⟩ := (List.mem_tails _ _).mp hrest
        obtain ⟨u, v, rfl, hu, hv⟩ := ih.mp hlike
        refine ⟨skipped ++ u, v, by rw [List.append_assoc], ?_, hv⟩
        rw [like, if_pos hc, List.any_eq_true]
        exact ⟨u, (List.mem_tails _ _).mpr (List.suffix_append _ _), hu⟩
      · rintro ⟨u, v, rfl, hu, hv⟩
        rw [like, if_pos hc, List.any_eq_true] at hu
        obtain ⟨rest, hrest, hlike⟩ := hu
        obtain ⟨skipped, rfl⟩ := (List.mem_tails _ _).mp hrest
        refine ⟨rest ++ v, (List.mem_tails _ _).mpr ?_, ih.mpr ⟨rest, v, rfl, hlike, hv⟩⟩
        exact ⟨skipped, by rw [List.append_assoc]⟩
    · rw [if_neg hc]
      constructor
      · intro h
        rw [Bool.and_eq_true] at h
        obtain ⟨hhead, htail⟩ := h
        cases text with
        | nil => exact absurd hhead (by simp)
        | cons d text =>
          obtain ⟨u, v, huv, hu, hv⟩ := ih.mp htail
          refine ⟨d :: u, v, by rw [List.cons_append, ← huv, List.tail_cons], ?_, hv⟩
          rw [like, if_neg hc, Bool.and_eq_true]
          exact ⟨hhead, hu⟩
      · rintro ⟨u, v, rfl, hu, hv⟩
        rw [like, if_neg hc, Bool.and_eq_true] at hu
        cases u with
        | nil => exact absurd hu.1 (by simp)
        | cons d u =>
          rw [Bool.and_eq_true]
          exact ⟨hu.1, ih.mpr ⟨u, v, rfl, hu.2, hv⟩⟩

theorem like_self (p : List Char) : like p p = true := by
  induction p with
  | nil => rfl
  | cons c p ih =>
    rw [like]
    split
    · rw [List.any_eq_true]
      exact ⟨p, (List.mem_tails _ _).mpr (List.suffix_cons c p), ih⟩
    · simp [ih]

theorem like_any (text : List Char) : like ['%'] text = true := by
  rw [like, if_pos rfl, List.any_eq_true]
  exact ⟨[], (List.mem_tails _ _).mpr List.nil_suffix, rfl⟩

theorem like_append_any {p text : List Char} :
    like (p ++ ['%']) text = true ↔ ∃ u, u <+: text ∧ like p u = true := by
  rw [like_append]
  constructor
  · rintro ⟨u, v, rfl, hu, -⟩
    exact ⟨u, List.prefix_append u v, hu⟩
  · rintro ⟨u, ⟨v, rfl⟩, hu⟩
    exact ⟨u, v, rfl, hu, like_any v⟩

/-! ### Ranking -/

def ranked (score : α → ℚ) (limit : ℕ) (l : List α) : List α :=
  (l.insertionSort fun a b => score b ≤ score a).take limit

variable {score : α → ℚ} {limit : ℕ} {l : List α}

theorem mem_of_mem_ranked {a : α} (h : a ∈ ranked score limit l) : a ∈ l :=
  (List.mem_insertionSort _).mp (List.mem_of_mem_take h)

theorem mem_ranked_iff (hlen : l.length ≤ limit) {a : α} : a ∈ ranked score limit l ↔ a ∈ l := by
  rw [ranked, List.take_of_length_le (by rwa [List.length_insertionSort]),
    List.mem_insertionSort]

/-! ### Steps that may raise -/

theorem toOption_eq_some {ε α : Type*} {x : Except ε α} {a : α} :
    x.toOption = some a ↔ x = .ok a := by
  cases x <;> simp [Except.toOption]

theorem bind_eq_ok {ε α β : Type} {x : Except ε α} {f : α → Except ε β} {b : β}
    (h : (x >>= f) = .ok b) : ∃ a, x = .ok a ∧ f a = .ok b := by
  cases x with
  | error e => exact absurd h nofun
  | ok a => exact ⟨a, rfl, h⟩

theorem mem_mapM_iff {ε α β : Type} {f : α → Except ε β} {l : List α} {out : List β}
    (h : l.mapM f = .ok out) {b : β} : b ∈ out ↔ ∃ a ∈ l, f a = .ok b := by
  induction l generalizing out with
  | nil =>
    rw [List.mapM_nil] at h
    rw [← Except.ok.inj h]
    simp
  | cons a l ih =>
    rw [List.mapM_cons] at h
    obtain ⟨c, hc, hrest⟩ := bind_eq_ok h
    obtain ⟨cs, hcs, hout⟩ := bind_eq_ok hrest
    rw [← Except.ok.inj hout, List.mem_cons, ih hcs, List.exists_mem_cons_iff, hc, Except.ok.injEq,
      eq_comm]

theorem exists_ok_of_mapM {ε α β : Type} {f : α → Except ε β} {l : List α} {out : List β}
    (h : l.mapM f = .ok out) {a : α} (ha : a ∈ l) : ∃ b, f a = .ok b := by
  induction l generalizing out with
  | nil => exact absurd ha List.not_mem_nil
  | cons x l ih =>
    rw [List.mapM_cons] at h
    obtain ⟨c, hc, hrest⟩ := bind_eq_ok h
    obtain ⟨cs, hcs, -⟩ := bind_eq_ok hrest
    rcases List.mem_cons.mp ha with rfl | ha
    · exact ⟨c, hc⟩
    · exact ih hcs ha

theorem exists_mapM_eq_ok_iff {ε α β : Type} {f : α → Except ε β} {l : List α} :
    (∃ out, l.mapM f = .ok out) ↔ ∀ a ∈ l, ∃ b, f a = .ok b := by
  refine ⟨fun ⟨_, h⟩ a ha => exists_ok_of_mapM h ha, fun h => ?_⟩
  induction l with
  | nil => exact ⟨[], rfl⟩
  | cons a l ih =>
    obtain ⟨⟨b, hb⟩, hrest⟩ := List.forall_mem_cons.mp h
    obtain ⟨bs, hbs⟩ := ih hrest
    refine ⟨b :: bs, ?_⟩
    rw [List.mapM_cons, hb, hbs]
    rfl

end Foundation

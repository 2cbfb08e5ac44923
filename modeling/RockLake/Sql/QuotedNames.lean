import RockLake.Sql.Statements

/-! Names in double quotes, and the byte offsets at which the source cuts the text around them. -/
namespace RockLake.Sql

open List Text Unicode

/-- The loop over the characters after the opening quote, the next one at byte `i` of them. A slice
that fails is a panic. -/
def scanQuoted (s : List Char) (i : Nat) (taken : List Char) (endByte : Nat) (chars : List Char) :
    Option (List Char × Nat) :=
  match chars with
  | [] => some (taken, endByte)
  | c :: text =>
    let past := i + c.utf8Size
    if c = '"' then
      (slice s (past + 1) (size s)).bind fun rest =>
        if rest.head? = some '"' then
          scanQuoted s (past + size (text.take 1)) (taken ++ ['"']) (past + 2) text.tail
        else some (taken, past + 1)
    else scanQuoted s past (taken ++ [c]) endByte text
termination_by chars.length

def sliceSqlIdentifier (unicode : CharData) (s : List Char) : Option (List Char × List Char) :=
  let cut := fun (name, endByte) => (slice s endByte (size s)).map fun rest => (name, rest)
  match s with
  | '"' :: afterQuote => (scanQuoted s 0 [] 1 afterQuote).bind cut
  | _ =>
    let token := s.takeWhile fun c => unicode.alphanumeric c || c = '_'
    cut (token, size token)

/-- The loop takes what the scan of the characters takes, and stops at the same place. -/
theorem scanQuoted_eq {s before front : List Char} (here : s = before ++ text)
    (offset : size before = i + 1) (marked : s = front ++ rest) :
    ∃ front', scanQuoted s i taken (size front) text =
        some ((takeQuoted taken rest text).1, size front') ∧
      s = front' ++ (takeQuoted taken rest text).2 := by
  have next {before i} (offset : size before = i + 1) (c : Char) :
      size (before ++ [c]) = i + c.utf8Size + 1 := by
    rw [size_append, offset]
    simp [Nat.add_right_comm]
  fun_induction takeQuoted taken rest text generalizing i before front with
  | case1 taken rest => exact ⟨front, by rw [scanQuoted], marked⟩
  | case2 taken rest text ih =>
    have cut := slice_to_end.mpr ⟨_, here.trans (append_cons ..), next offset '"'⟩
    have split : s = before ++ ['"'] ++ ['"'] ++ text := by simp [here]
    have twice := next (next offset '"') '"'
    rw [scanQuoted, if_pos rfl, cut, Option.bind_some, if_pos head?_cons]
    exact twice ▸ ih split twice split
  | case3 taken rest text single =>
    have cut := slice_to_end.mpr ⟨_, here.trans (append_cons ..), next offset '"'⟩
    refine ⟨before ++ ['"'], ?_, here.trans (append_cons ..)⟩
    rw [scanQuoted, if_pos rfl, cut, next offset, Option.bind_some, if_neg]
    exact fun again => (head?_eq_some_iff.mp again).elim single
  | case4 taken rest c text single other ih =>
    rw [scanQuoted, if_neg other]
    exact ih (here.trans (append_cons ..)) (next offset c) marked

theorem sliceSqlIdentifier_eq (unicode : CharData) (s : List Char) :
    sliceSqlIdentifier unicode s = some (takeSqlIdentifier unicode s) ∧
      (takeSqlIdentifier unicode s).2 <:+ s := by
  fun_cases takeSqlIdentifier unicode s with
  | case1 text =>
    obtain ⟨front, found, split⟩ : ∃ front, scanQuoted ('"' :: text) 0 [] 1 text = _ ∧ _ :=
      scanQuoted_eq (rfl : _ = ['"'] ++ text) rfl (rfl : _ = ['"'] ++ text)
    have cut := slice_to_end.mpr ⟨front, split, rfl⟩
    rw [sliceSqlIdentifier, found]
    exact ⟨congrArg (Option.map fun rest => (_, rest)) cut, front, split.symm⟩
  | case2 _ plain =>
    have starts := takeWhile_prefix (l := s) fun c => unicode.alphanumeric c || c = '_'
    have split := List.prefix_iff_eq_append.mp starts
    have cut := slice_to_end.mpr ⟨_, split.symm, rfl⟩
    rw [sliceSqlIdentifier]
    · exact ⟨congrArg (Option.map fun rest => (_, rest)) cut, _, split⟩
    · exact plain

theorem takeQuoted_double {t : List Char} (single : t.head? ≠ some '"')
    (name taken rest : List Char) :
    takeQuoted taken rest (double '"' name ++ '"' :: t) = (taken ++ name, t) := by
  induction name generalizing taken rest with
  | nil =>
    rw [double, nil_append, append_nil, takeQuoted]
    rintro more rfl
    exact single rfl
  | cons c name ih =>
    by_cases quote : c = '"'
    · simp [double, quote, takeQuoted, ih]
    · simp [double, quote, takeQuoted, ih]

theorem splitQualifiedName_quoted (unicode : CharData) (a b s : List Char) :
    splitQualifiedName unicode
        ('"' :: (double '"' a ++ '"' :: '.' :: '"' :: (double '"' b ++ ['"']))) = (some a, b) ∧
      sliceSqlIdentifier unicode s = some (takeSqlIdentifier unicode s) ∧
      (takeSqlIdentifier unicode s).2 <:+ s := by
  refine ⟨?_, sliceSqlIdentifier_eq unicode s⟩
  rw [splitQualifiedName, trim_self, takeSqlIdentifier, takeQuoted_double (by simp)]
  · exact congrArg (fun found => (some a, found.1)) (takeQuoted_double (t := []) (by simp) b [] _)
  · simp [isSpace]
  · intro c final
    obtain rfl : c = '"' := by simpa [getLast?_cons, getLast?_append, eq_comm] using final
    rfl

end RockLake.Sql

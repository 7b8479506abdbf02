import Mathlib.Data.List.TakeWhile
import OpenMama.Mama.DictionaryTable

/-!
# Dictionaries in files

A file is read in pieces of at most 254 characters, none of which goes beyond a line.  So its
descriptors are those of its lines (`readFile_eq`), and a line with fewer than two delimiters has
none.  The line of a descriptor that fits into a piece is read back as the descriptor
(`readFile_record`); a name of more than 252 characters is in no descriptor that is read.
-/

namespace Mama.Dictionary

open List

variable {d d' : DictionaryImpl} {fd : FieldDescriptor} {fds : List FieldDescriptor}
  {s m r text rest before : List Char} {n : Nat}

/-! ## Pieces -/

theorem fgets_append (n : Nat) (text : List Char) :
    (fgets n text).1 ++ (fgets n text).2 = text := by
  induction n generalizing text with
  | zero => rfl
  | succ n ih =>
    cases text with
    | nil => rfl
    | cons c text =>
      unfold fgets
      split
      · rfl
      · exact congrArg (c :: ·) (ih text)

theorem length_fgets_le (n : Nat) (text : List Char) : (fgets n text).1.length ≤ n := by
  induction n generalizing text with
  | zero => exact Nat.le_refl _
  | succ n ih =>
    cases text with
    | nil => exact Nat.zero_le _
    | cons c text =>
      unfold fgets
      split
      · exact Nat.succ_le_succ (Nat.zero_le n)
      · exact Nat.succ_le_succ (ih text)

theorem fgets_ne_nil (n : Nat) (h : text ≠ []) : (fgets (n + 1) text).1 ≠ [] := by
  cases text with
  | nil => exact absurd rfl h
  | cons c text =>
    unfold fgets
    split
    · exact cons_ne_nil _ _
    · exact cons_ne_nil _ _

theorem length_fgets_lt (n : Nat) (h : text ≠ []) :
    (fgets (n + 1) text).2.length < text.length := by
  have happend := congrArg List.length (fgets_append (n + 1) text)
  rw [length_append] at happend
  have hpos := length_pos_iff.mpr (fgets_ne_nil n h)
  omega

theorem fgets_line (h : '\n' ∉ s) (hlt : s.length < n) (rest : List Char) :
    fgets n (s ++ '\n' :: rest) = (s ++ ['\n'], rest) := by
  induction s generalizing n with
  | nil =>
    obtain ⟨n, rfl⟩ := Nat.exists_eq_succ_of_ne_zero (Nat.ne_of_gt hlt)
    rfl
  | cons c s ih =>
    obtain ⟨n, rfl⟩ := Nat.exists_eq_succ_of_ne_zero (Nat.ne_of_gt (Nat.zero_lt_of_lt hlt))
    obtain ⟨hc, hs⟩ := not_or.mp (mt mem_cons.mpr h)
    show fgets (n + 1) (c :: (s ++ '\n' :: rest)) = _
    rw [fgets, if_neg (Ne.symm hc), ih hs (Nat.lt_of_succ_lt_succ hlt)]
    rfl

theorem fgets_cut (h : '\n' ∉ s) (hle : n ≤ s.length) (rest : List Char) :
    fgets n (s ++ rest) = (s.take n, s.drop n ++ rest) := by
  induction s generalizing n with
  | nil => obtain rfl := Nat.le_zero.mp hle; rfl
  | cons c s ih =>
    cases n with
    | zero => rfl
    | succ n =>
      obtain ⟨hc, hs⟩ := not_or.mp (mt mem_cons.mpr h)
      show fgets (n + 1) (c :: (s ++ rest)) = _
      rw [fgets, if_neg (Ne.symm hc), ih hs (Nat.le_of_succ_le_succ hle)]
      rfl

theorem fgets_last (h : '\n' ∉ s) (hle : s.length ≤ n) : fgets n s = (s, []) := by
  induction s generalizing n with
  | nil => cases n <;> rfl
  | cons c s ih =>
    obtain ⟨n, rfl⟩ := Nat.exists_eq_succ_of_ne_zero (Nat.ne_of_gt (Nat.zero_lt_of_lt hle))
    obtain ⟨hc, hs⟩ := not_or.mp (mt mem_cons.mpr h)
    rw [fgets, if_neg (Ne.symm hc), ih hs (Nat.le_of_succ_le_succ hle)]

/-- The pieces in which a text is read, of at most `n + 1` characters. -/
def pieces (n : Nat) (text : List Char) : List (List Char) :=
  if text = [] then []
  else (fgets (n + 1) text).1 :: pieces n (fgets (n + 1) text).2
termination_by text.length
decreasing_by exact length_fgets_lt n ‹_›

theorem pieces_nil (n : Nat) : pieces n [] = [] := by rw [pieces, if_pos rfl]

theorem pieces_of_ne_nil (n : Nat) (h : text ≠ []) :
    pieces n text = (fgets (n + 1) text).1 :: pieces n (fgets (n + 1) text).2 := by
  rw [pieces, if_neg h]

theorem pieces_plain (h : '\n' ∉ s) (hne : s ≠ []) :
    pieces n s = s.take (n + 1) :: pieces n (s.drop (n + 1)) := by
  rw [pieces_of_ne_nil n hne]
  by_cases hle : n + 1 ≤ s.length
  · have hcut := fgets_cut h hle []
    rw [append_nil, append_nil] at hcut
    rw [hcut]
  · rw [fgets_last h (by omega), take_of_length_le (by omega), drop_of_length_le (by omega)]

/-- **What is made of the pieces of a line, and of those of what follows.** -/
theorem flatMap_pieces_line {β : Type} {f : List Char → List β} (hline : ∀ s, f (s ++ ['\n']) = f s)
    (hempty : f [] = []) (h : '\n' ∉ s) (rest : List Char) :
    (pieces n (s ++ '\n' :: rest)).flatMap f =
      (pieces n s).flatMap f ++ (pieces n rest).flatMap f := by
  induction hn : s.length using Nat.strong_induction_on generalizing s with
  | _ k ih =>
    have hne : s ++ '\n' :: rest ≠ [] := append_ne_nil_of_right_ne_nil _ (cons_ne_nil _ _)
    rw [pieces_of_ne_nil n hne]
    by_cases hlt : s.length < n + 1
    · -- the line is one piece
      rw [fgets_line h hlt, flatMap_cons, hline]
      by_cases hnil : s = []
      · rw [hnil, hempty, pieces_nil]; rfl
      · rw [pieces_plain h hnil, take_of_length_le (Nat.le_of_lt hlt),
          drop_of_length_le (Nat.le_of_lt hlt), pieces_nil, flatMap_singleton]
    -- a piece is cut from the line
    have hnil : s ≠ [] := fun hnil => hlt (by rw [hnil]; exact Nat.succ_pos n)
    have hrest : '\n' ∉ s.drop (n + 1) := fun hmem => h (mem_of_mem_drop hmem)
    have hlength : (s.drop (n + 1)).length < k := by
      rw [length_drop]; omega
    rw [fgets_cut h (Nat.le_of_not_lt hlt), pieces_plain h hnil, flatMap_cons, flatMap_cons,
      ih _ hlength hrest rfl, append_assoc]

/-- The descriptors that a text makes, in the order in which they are made. -/
def readFile (text : List Char) : List FieldDescriptor :=
  if text = [] then []
  else (readLine (fgets 254 text).1).toList ++ readFile (fgets 254 text).2
termination_by text.length
decreasing_by exact length_fgets_lt 253 ‹_›

theorem readFile_nil : readFile [] = [] := by rw [readFile, if_pos rfl]

theorem readFile_of_ne_nil (h : text ≠ []) :
    readFile text = (readLine (fgets 254 text).1).toList ++ readFile (fgets 254 text).2 := by
  rw [readFile, if_neg h]

theorem populate_eq (d : DictionaryImpl) {fuel : Nat} (h : text.length < fuel) :
    populate d fuel text = createAll d (readFile text) := by
  induction fuel generalizing d text with
  | zero => cases h
  | succ fuel ih =>
    unfold populate
    by_cases hnil : text = []
    · subst hnil
      rw [readFile_nil]
      rfl
    have hpiece := fgets_ne_nil 253 hnil
    have hfuel : (fgets 254 text).2.length < fuel := by
      have hlt : (fgets 254 text).2.length < text.length := length_fgets_lt 253 hnil
      omega
    rw [readFile_of_ne_nil hnil]
    cases hgets : fgets 254 text with
    | mk lineBuffer rest =>
      rw [hgets] at hpiece hfuel
      cases lineBuffer with
      | nil => exact absurd rfl hpiece
      | cons c lineBuffer =>
        dsimp only
        cases readLine (c :: lineBuffer) with
        | none => exact ih d hfuel
        | some fd =>
          dsimp only
          show _ = createAll d (fd :: readFile rest)
          rw [createAll, foldlM_cons]
          cases createFieldDescriptor d fd.mFid fd.mName fd.mType with
          | none => rfl
          | some d₁ => exact ih d₁ hfuel

theorem populateFromFile_eq (d : DictionaryImpl) (text : List Char) :
    populateFromFile d text = createAll d (readFile text) :=
  populate_eq d (Nat.lt_succ_self _)

/-! ## The text of a piece -/

theorem textAt_append (h : '\x00' ∉ s) (before rest : List Char) :
    textAt (before ++ (s ++ '\x00' :: rest)) before.length = s := by
  rw [textAt, drop_left, takeWhile_append_of_pos]
  · exact append_nil s
  · intro c hc
    have : c ≠ '\x00' := fun heq => h (heq ▸ hc)
    exact decide_eq_true this

theorem textAt_last (h : '\x00' ∉ s) (before : List Char) :
    textAt (before ++ s) before.length = s := by
  rw [textAt, drop_left, takeWhile_eq_self_iff]
  intro c hc
  have : c ≠ '\x00' := fun heq => h (heq ▸ hc)
  exact decide_eq_true this

theorem not_mem_textAt (buffer : List Char) (i : Nat) : '\x00' ∉ textAt buffer i := by
  intro h
  have := mem_takeWhile_imp h
  simp at this

theorem textAt_sublist (buffer : List Char) (i : Nat) : (textAt buffer i).Sublist buffer :=
  (takeWhile_sublist _).trans (drop_sublist i buffer)

theorem strip_sublist_textAt (buffer : List Char) :
    (stripTrailingWhiteSpace buffer).Sublist (textAt buffer 0) := by
  have h := (dropWhile_sublist isspace (l := (textAt buffer 0).reverse)).reverse
  rwa [reverse_reverse] at h

theorem strip_sublist (buffer : List Char) : (stripTrailingWhiteSpace buffer).Sublist buffer :=
  (strip_sublist_textAt buffer).trans (textAt_sublist buffer 0)

theorem strip_append (s : List Char) {ws : List Char} (h : ∀ c ∈ ws, isspace c) :
    stripTrailingWhiteSpace (s ++ ws) = stripTrailingWhiteSpace s := by
  have hws : ws.takeWhile (· ≠ '\x00') = ws := by
    rw [takeWhile_eq_self_iff]
    rintro c hc
    refine decide_eq_true fun heq => ?_
    have hspace := h c hc
    rw [heq] at hspace
    cases hspace
  unfold stripTrailingWhiteSpace textAt
  rw [drop_zero, drop_zero, takeWhile_append]
  split
  · next heq =>
    have hs : s.takeWhile (· ≠ '\x00') = s :=
      (takeWhile_sublist _).eq_of_length heq
    rw [hs, hws, reverse_append, dropWhile_append_of_pos fun c hc => h c (mem_reverse.1 hc)]
  · rfl

theorem strip_eq_self {c : Char} (h : '\x00' ∉ s ++ [c]) (hc : isspace c = false) :
    stripTrailingWhiteSpace (s ++ [c]) = s ++ [c] := by
  unfold stripTrailingWhiteSpace
  have htext : textAt (s ++ [c]) 0 = s ++ [c] := textAt_last h []
  rw [htext, reverse_append, reverse_singleton, singleton_append,
    dropWhile_cons_of_neg (by rw [hc]; exact Bool.false_ne_true), reverse_cons,
    reverse_reverse]

/-! ## Lines -/

theorem readLine_newline (s : List Char) : readLine (s ++ ['\n']) = readLine s := by
  unfold readLine
  rw [strip_append s (by simp [isspace])]

theorem validateDelimLine_iff (c : List Char) :
    validateDelimLine c ↔ ∃ s m r, c = s ++ '|' :: (m ++ '|' :: r) ∧ '|' ∉ s ∧ '|' ∉ m := by
  have hdrop : ∀ {s : List Char} (r : List Char), '|' ∉ s →
      (s ++ '|' :: r).dropWhile (· ≠ '|') = '|' :: r := by
    intro s r hs
    rw [dropWhile_append_of_pos, dropWhile_cons_of_neg (by simp)]
    intro c hc
    have : c ≠ '|' := fun heq => hs (heq ▸ hc)
    exact decide_eq_true this
  constructor
  · intro h
    by_cases hmem : '|' ∈ c
    · obtain ⟨s, r, rfl, hs⟩ := eq_append_cons_of_mem hmem
      unfold validateDelimLine at h
      rw [hdrop r hs] at h
      obtain ⟨m, r, rfl, hm⟩ := eq_append_cons_of_mem (of_decide_eq_true h)
      exact ⟨s, m, r, rfl, hs, hm⟩
    have hnil : c.dropWhile (· ≠ '|') = [] := by
      rw [dropWhile_eq_nil_iff]
      intro x hx
      have : x ≠ '|' := fun heq => hmem (heq ▸ hx)
      exact decide_eq_true this
    unfold validateDelimLine at h
    rw [hnil] at h
    cases h
  · rintro ⟨s, m, r, rfl, hs, -⟩
    rw [validateDelimLine, hdrop _ hs]
    exact decide_eq_true (mem_append_right _ mem_cons_self)

theorem count_delim (s m r : List Char) : 2 ≤ (s ++ '|' :: (m ++ '|' :: r)).count '|' := by
  rw [count_append, count_cons_self, count_append, count_cons_self]
  omega

theorem getNextDelimStr_eq (h : '|' ∉ s) (rest : List Char) :
    getNextDelimStr (s ++ '|' :: rest) = (s ++ '\x00' :: rest, s.length + 1) := by
  have hindex : (s ++ '|' :: rest).findIdx (· = '|') = s.length := by
    have hall : ∀ c ∈ s, decide (c = '|') = false := by
      intro c hc; exact decide_eq_false fun heq => h (heq ▸ hc)
    rw [findIdx_append, findIdx_eq_length_of_false hall, if_neg (Nat.lt_irrefl _)]
    exact Nat.zero_add _
  unfold getNextDelimStr
  rw [hindex]
  dsimp only
  rw [set_append_right _ _ (Nat.le_refl _), Nat.sub_self]
  rfl

theorem readLine_split {p : List Char}
    (hsplit : stripTrailingWhiteSpace p = s ++ '|' :: (m ++ '|' :: r))
    (hs : '|' ∉ s) (hm : '|' ∉ m) :
    readLine p = some ⟨(atoi s).toUInt32.toUInt16, atoi r, m⟩ := by
  have hnul : '\x00' ∉ s ++ '|' :: (m ++ '|' :: r) := by
    rw [← hsplit]
    intro h
    exact not_mem_textAt p 0 ((strip_sublist_textAt p).mem h)
  have hnul_s : '\x00' ∉ s := fun h => hnul (mem_append_left _ h)
  have hnul_m : '\x00' ∉ m := fun h =>
    hnul (mem_append_right _ (mem_cons_of_mem _ (mem_append_left _ h)))
  have hnul_r : '\x00' ∉ r := fun h => hnul (mem_append_right _
    (mem_cons_of_mem _ (mem_append_right _ (mem_cons_of_mem _ h))))
  have hvalid := (validateDelimLine_iff _).mpr ⟨s, m, r, rfl, hs, hm⟩
  -- the second search goes over the first field again
  have hsecond : '|' ∉ s ++ '\x00' :: m := by
    intro h
    rcases mem_append.mp h with h | h
    · exact hs h
    · exact hm ((mem_cons.mp h).resolve_left (by decide))
  have hnext : s ++ '\x00' :: (m ++ '|' :: r) = (s ++ '\x00' :: m) ++ '|' :: r := by simp
  rw [readLine, hsplit, if_pos hvalid, getNextDelimStr_eq hs, hnext]
  dsimp only
  rw [getNextDelimStr_eq hsecond]
  have hfid : textAt (s ++ '\x00' :: m ++ '\x00' :: r) 0 = s := by
    have := textAt_append hnul_s [] (m ++ '\x00' :: r)
    simpa using this
  have hname : textAt (s ++ '\x00' :: m ++ '\x00' :: r) (s.length + 1) = m := by
    have := textAt_append hnul_m (s ++ ['\x00']) r
    simpa using this
  have htype : textAt (s ++ '\x00' :: m ++ '\x00' :: r) ((s ++ '\x00' :: m).length + 1) = r := by
    have := textAt_last hnul_r (s ++ '\x00' :: m ++ ['\x00'])
    rwa [append_assoc (s ++ '\x00' :: m), length_append] at this
  rw [hfid, hname, htype]

theorem readLine_eq_none {p : List Char} (h : p.count '|' < 2) : readLine p = none := by
  have hnot : ¬ validateDelimLine (stripTrailingWhiteSpace p) := by
    intro hvalid
    obtain ⟨s, m, r, heq, -, -⟩ := (validateDelimLine_iff _).mp hvalid
    have hle := (strip_sublist p).count_le '|'
    have := count_delim s m r
    rw [heq] at hle
    omega
  rw [readLine, if_neg hnot]

theorem length_name_le {p : List Char} (h : readLine p = some fd) :
    fd.mName.length + 2 ≤ p.length := by
  by_cases hvalid : validateDelimLine (stripTrailingWhiteSpace p)
  · obtain ⟨s, m, r, heq, hs, hm⟩ := (validateDelimLine_iff _).mp hvalid
    rw [readLine_split heq hs hm] at h
    cases h
    have hle := (strip_sublist p).length_le
    rw [heq, length_append, length_cons, length_append, length_cons] at hle
    show m.length + 2 ≤ p.length
    omega
  · unfold readLine at h
    rw [if_neg hvalid] at h
    cases h

/-! ## Files -/

theorem readFile_eq_pieces (text : List Char) :
    readFile text = (pieces 253 text).flatMap fun line => (readLine line).toList := by
  induction hn : text.length using Nat.strong_induction_on generalizing text with
  | _ n ih =>
    by_cases hnil : text = []
    · rw [hnil, readFile_nil, pieces_nil]; rfl
    · rw [readFile_of_ne_nil hnil, pieces_of_ne_nil 253 hnil, flatMap_cons,
        ih _ (hn ▸ length_fgets_lt 253 hnil) _ rfl]

/-- **The descriptors of a line, and those of what follows.** -/
theorem readFile_line (h : '\n' ∉ s) (rest : List Char) :
    readFile (s ++ '\n' :: rest) = readFile s ++ readFile rest := by
  simp only [readFile_eq_pieces]
  exact flatMap_pieces_line (fun s => by rw [readLine_newline])
    (congrArg Option.toList (readLine_eq_none (by decide))) h rest

/-- **The descriptors of a file are those of its lines.** -/
theorem readFile_eq (text : List Char) : readFile text = (text.splitOn '\n').flatMap readFile := by
  induction hn : text.length using Nat.strong_induction_on generalizing text with
  | _ n ih =>
    by_cases hmem : '\n' ∈ text
    · obtain ⟨s, rest, rfl, hs⟩ := eq_append_cons_of_mem hmem
      have hlength : rest.length < n := by
        rw [length_append, length_cons] at hn; omega
      rw [splitOn_append_cons_self_of_not_mem hs, flatMap_cons, readFile_line hs,
        ih _ hlength rest rfl]
    · rw [splitOn_eq_singleton hmem, flatMap_singleton]

theorem not_mem_of_mem_splitOn {line : List Char} (h : line ∈ text.splitOn '\n') : '\n' ∉ line := by
  induction hn : text.length using Nat.strong_induction_on generalizing text with
  | _ n ih =>
    by_cases hmem : '\n' ∈ text
    · obtain ⟨s, rest, rfl, hs⟩ := eq_append_cons_of_mem hmem
      rw [splitOn_append_cons_self_of_not_mem hs] at h
      rcases mem_cons.mp h with rfl | h
      · exact hs
      · refine ih _ ?_ h rfl
        rw [length_append, length_cons] at hn
        omega
    · rw [splitOn_eq_singleton hmem] at h
      obtain rfl := mem_singleton.mp h
      exact hmem

theorem readFile_eq_nil (h : s.count '|' < 2) : readFile s = [] := by
  induction hn : s.length using Nat.strong_induction_on generalizing s with
  | _ n ih =>
    by_cases hnil : s = []
    · rw [hnil, readFile_nil]
    · have happend := congrArg (List.count '|') (fgets_append 254 s)
      rw [count_append] at happend
      rw [readFile_of_ne_nil hnil, readLine_eq_none (by omega),
        ih _ (hn ▸ length_fgets_lt 253 hnil) (by omega) rfl]
      rfl

def delimited (text : List Char) : List (List Char) :=
  (text.splitOn '\n').filter fun line => 2 ≤ line.count '|'

/-- **Without the other lines a file has the same descriptors.** -/
theorem readFile_delimited (text : List Char) :
    readFile (['\n'].intercalate (delimited text)) = readFile text := by
  have hfilter : ∀ lines : List (List Char),
      (lines.filter fun line => 2 ≤ line.count '|').flatMap readFile = lines.flatMap readFile := by
    intro lines
    induction lines with
    | nil => rfl
    | cons line lines ih =>
      by_cases htwo : 2 ≤ line.count '|'
      · rw [filter_cons_of_pos (by simpa using htwo), flatMap_cons, flatMap_cons, ih]
      · rw [filter_cons_of_neg (by simpa using htwo), flatMap_cons, ih,
          readFile_eq_nil (Nat.lt_of_not_le htwo)]
        rfl
  rw [readFile_eq text, ← hfilter]
  by_cases hnil : delimited text = []
  · rw [hnil, show (text.splitOn '\n').filter _ = [] from hnil]; exact readFile_nil
  · rw [readFile_eq, splitOn_intercalate]
    · rfl
    · exact fun line hline => not_mem_of_mem_splitOn (mem_of_mem_filter hline)
    · exact hnil

/-! ## Numbers -/

theorem isspace_eq_false {c : Char} (h : c.isDigit) : isspace c = false := by
  have hne : ∀ x : Char, x.isDigit = false → c ≠ x := by
    rintro x hx rfl
    rw [h] at hx
    cases hx
  unfold isspace
  simp [hne _ (show ' '.isDigit = false from rfl), hne _ (show '\t'.isDigit = false from rfl),
    hne _ (show '\n'.isDigit = false from rfl), hne _ (show '\x0b'.isDigit = false from rfl),
    hne _ (show '\x0c'.isDigit = false from rfl), hne _ (show '\r'.isDigit = false from rfl)]

theorem exists_printInt (n : Int) : ∃ s c, printInt n = s ++ [c] ∧ c.isDigit := by
  have hne : Lib.padded 1 n.natAbs ≠ [] := by
    intro h
    have := congrArg List.length h
    unfold Lib.padded at this
    simp at this
  have hlast : Lib.padded 1 n.natAbs =
      (Lib.padded 1 n.natAbs).dropLast ++ [(Lib.padded 1 n.natAbs).getLast hne] :=
    (dropLast_append_getLast hne).symm
  have hdigit := Lib.isDigit_of_mem_padded (getLast_mem hne)
  unfold printInt
  split
  · refine ⟨'-' :: (Lib.padded 1 n.natAbs).dropLast, _, ?_, hdigit⟩
    rw [cons_append, ← hlast]
  · exact ⟨_, _, hlast, hdigit⟩

theorem not_mem_printInt {x : Char} (hdigit : x.isDigit = false) (hsign : x ≠ '-') (n : Int) :
    x ∉ printInt n := by
  have hpadded : x ∉ Lib.padded 1 n.natAbs := by
    intro h
    rw [Lib.isDigit_of_mem_padded h] at hdigit
    cases hdigit
  unfold printInt
  split
  · intro h; exact hpadded ((mem_cons.mp h).resolve_left hsign)
  · exact hpadded

/-- **A number is read back.** -/
theorem atoi_printInt (n : Int) : atoi (printInt n) = Int32.ofInt n := by
  have hread : Lib.leadingNat (Lib.padded 1 n.natAbs) = n.natAbs := by
    have h := @Lib.leadingNat_padded [] 1 n.natAbs (fun c hc => by cases hc)
    rwa [append_nil] at h
  unfold printInt
  split
  · next hneg =>
    show Int32.ofInt (-(Lib.leadingNat (Lib.padded 1 n.natAbs) : Int)) = _
    congr 1
    omega
  next hpos =>
  have hnat : Int32.ofInt (Lib.leadingNat (Lib.padded 1 n.natAbs) : Int) = Int32.ofInt n := by
    congr 1
    omega
  cases hdigits : Lib.padded 1 n.natAbs with
  | nil => rwa [hdigits] at hnat
  | cons c digits =>
    have hc : c.isDigit := Lib.isDigit_of_mem_padded (hdigits ▸ mem_cons_self)
    rw [hdigits] at hnat
    unfold atoi
    rw [dropWhile_cons_of_neg (by rw [isspace_eq_false hc]; exact Bool.false_ne_true)]
    dsimp only
    split
    · next heq => rw [(List.cons.inj heq).1] at hc; cases hc
    · next heq => rw [(List.cons.inj heq).1] at hc; cases hc
    · exact hnat

/-! ## Records -/

def record (fd : FieldDescriptor) : List Char :=
  printInt fd.mFid.toNat ++ '|' :: (fd.mName ++ '|' :: printInt fd.mType.toInt)

structure Plain (name : List Char) : Prop where
  delim : '|' ∉ name
  newline : '\n' ∉ name
  nul : '\x00' ∉ name

theorem not_mem_record {x : Char} (hdigit : x.isDigit = false) (hsign : x ≠ '-')
    (hdelim : x ≠ '|') (hname : x ∉ fd.mName) : x ∉ record fd := by
  intro h
  rcases mem_append.mp h with h | h
  · exact not_mem_printInt hdigit hsign _ h
  rcases mem_append.mp ((mem_cons.mp h).resolve_left hdelim) with h | h
  · exact hname h
  · exact not_mem_printInt hdigit hsign _ ((mem_cons.mp h).resolve_left hdelim)

theorem printLine_eq (h : (record fd).length ≤ 254) : printLine fd = record fd ++ ['\n'] := by
  have heq : printInt fd.mFid.toNat ++ '|' :: fd.mName ++ '|' :: printInt fd.mType.toInt ++ ['\n'] =
      record fd ++ ['\n'] := by
    unfold record
    simp
  rw [printLine, heq, take_of_length_le]
  rw [length_append, length_singleton]
  omega

/-- **A record is read back.** -/
theorem readLine_record (h : Plain fd.mName) : readLine (record fd) = some fd := by
  have hstrip : stripTrailingWhiteSpace (record fd) = record fd := by
    obtain ⟨s, c, hs, hc⟩ := exists_printInt fd.mType.toInt
    have hnul : '\x00' ∉ record fd := not_mem_record rfl (by decide) (by decide) h.nul
    have hend : record fd = (printInt fd.mFid.toNat ++ '|' :: (fd.mName ++ '|' :: s)) ++ [c] := by
      rw [record, hs]; simp
    rw [hend] at hnul ⊢
    exact strip_eq_self hnul (isspace_eq_false hc)
  rw [readLine_split hstrip (not_mem_printInt rfl (by decide) _) h.delim, atoi_printInt,
    atoi_printInt, Int32.ofInt_toInt]
  have hfid : (Int32.ofInt (fd.mFid.toNat : Int)).toUInt32.toUInt16 = fd.mFid := by
    rw [Int32.ofInt_eq_ofNat]
    apply UInt16.toNat_inj.mp
    simp
  rw [hfid]

theorem readFile_record (h : Plain fd.mName) (hfits : (record fd).length ≤ 254) :
    '\n' ∉ record fd ∧ readFile (record fd) = [fd] := by
  have hnewline : '\n' ∉ record fd := not_mem_record rfl (by decide) (by decide) h.newline
  have hne : record fd ≠ [] := append_ne_nil_of_right_ne_nil _ (cons_ne_nil _ _)
  refine ⟨hnewline, ?_⟩
  rw [readFile_of_ne_nil hne, fgets_last hnewline hfits]
  rw [readLine_record h, readFile_nil]
  rfl

/-- **What is written is read back**, if each line fits. -/
theorem readFile_flatMap (hnames : ∀ fd ∈ fds, Plain fd.mName)
    (hfits : ∀ fd ∈ fds, (record fd).length ≤ 254) : readFile (fds.flatMap printLine) = fds := by
  induction fds with
  | nil => exact readFile_nil
  | cons fd fds ih =>
    obtain ⟨hname, hnames⟩ := forall_mem_cons.mp hnames
    obtain ⟨hfit, hfits⟩ := forall_mem_cons.mp hfits
    obtain ⟨hnewline, hread⟩ := readFile_record hname hfit
    rw [flatMap_cons, printLine_eq hfit, append_assoc, singleton_append,
      readFile_line hnewline, hread, ih hnames hfits]
    rfl

theorem length_name_le_of_mem (h : fd ∈ readFile text) : fd.mName.length ≤ 252 := by
  induction hn : text.length using Nat.strong_induction_on generalizing text with
  | _ n ih =>
    by_cases hnil : text = []
    · rw [hnil, readFile_nil] at h; cases h
    · rw [readFile_of_ne_nil hnil] at h
      rcases mem_append.mp h with h | h
      · have hread := length_name_le (Option.mem_toList.mp h)
        have := length_fgets_le 254 text
        omega
      · exact ih _ (hn ▸ length_fgets_lt 253 hnil) h rfl

/-! ## Round trips -/

theorem Rep.writeToFile_flatMap (h : Rep d) :
    writeToFile d = some ((stored d).flatMap printLine) := by
  rw [h.writeToFile_eq, foldl_append_eq_append]
  rfl

theorem Rep.createAll_stored (h : Rep d) : ∃ d', createAll create (stored d) = some d' ∧
    Stores create (stored d) d' ∧ stored d' = stored d := by
  obtain ⟨d', hd', hstores⟩ := createAll_spec rep_create (stored d)
  have hfresh : Fresh create (stored d) := ⟨h.nodup_fids, fun _ _ _ ho => by cases ho⟩
  have hperm := hstores.fresh hfresh
  rw [show stored create = [] from rfl, append_nil] at hperm
  exact ⟨d', hd', hstores, hstores.rep.stored_eq h.pairwise hperm⟩

def ReadsBack (d : DictionaryImpl) : Prop :=
  ∃ text d', writeToFile d = some text ∧ populateFromFile create text = some d' ∧
    stored d' = stored d

/-- **A dictionary whose records fit is read back.** -/
theorem Rep.readsBack (h : Rep d) (hnames : ∀ fd ∈ stored d, Plain fd.mName)
    (hfits : ∀ fd ∈ stored d, (record fd).length ≤ 254) : ReadsBack d := by
  obtain ⟨d', hd', -, hstored⟩ := h.createAll_stored
  refine ⟨_, d', h.writeToFile_flatMap, ?_, hstored⟩
  rwa [populateFromFile_eq, readFile_flatMap hnames hfits]

/-- **A dictionary with a long name is not.** -/
theorem length_name_le_of_readsBack (h : ReadsBack d) (hfd : fd ∈ stored d) :
    fd.mName.length ≤ 252 := by
  obtain ⟨text, d', -, hread, hstored⟩ := h
  rw [populateFromFile_eq] at hread
  obtain ⟨d₁, hd₁, hstores⟩ := createAll_spec rep_create (readFile text)
  cases hd₁.symm.trans hread
  rw [← hstored] at hfd
  rcases hstores.mem fd hfd with hmem | hmem
  · exact length_name_le_of_mem hmem
  · cases hmem

/-- The descriptors of a file are made one after the other, and are those of its lines; a line
without two delimiters has none, and whether it is there makes no difference. -/
structure Skipped (text : List Char) : Prop where
  made : ∀ d, populateFromFile d text = createAll d (readFile text)
  lines : readFile text = (text.splitOn '\n').flatMap readFile
  none_of_line : ∀ line ∈ text.splitOn '\n', line.count '|' < 2 → readFile line = []
  same : ∀ d, populateFromFile d (['\n'].intercalate (delimited text)) = populateFromFile d text

theorem skipped (text : List Char) : Skipped text where
  made d := populateFromFile_eq d text
  lines := readFile_eq text
  none_of_line _ _ := readFile_eq_nil
  same d := by rw [populateFromFile_eq, populateFromFile_eq, readFile_delimited]

end Mama.Dictionary

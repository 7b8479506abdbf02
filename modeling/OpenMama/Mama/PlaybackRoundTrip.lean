import OpenMama.Mama.Playback
import Mathlib.Data.List.TakeWhile

/-!
# What is captured is played back

A file of captures is read back, header by header and message by message, by either reader: just if
no body is too long for an `int`, and a body of no bytes is neither the last one nor comes before
the first that has bytes (`roundTrip_iff`).
-/

namespace Mama

open List

namespace Playback

/-! ## What is expected -/

def digits (n : Nat) : List UInt8 := (Nat.toDigits 10 n).map Char.toUInt8

/-- The text `SOURCE:TPORT:SYMBOL:LEN`. -/
def Capture.header (c : Capture) : List UInt8 :=
  c.source ++ [colon] ++ c.transport ++ [colon] ++ c.symbol ++ [colon] ++ digits c.bytes.length

/-- The names are free of the delimiter and of nulls, and the header is short enough. -/
structure Capture.WellFormed (c : Capture) : Prop where
  free : ∀ b ∈ c.source ++ c.transport ++ c.symbol, b ≠ delimeter ∧ b ≠ 0
  short : c.header.length < headerSize

def saveAll (cs : List Capture) : Option (List UInt8) := cs.foldlM saveMamaMsg []

/-- Each capture comes back, and then there is no more header. -/
def Plays (accepts : UInt8 → List UInt8 → Bool) : PlaybackFileParser → List Capture → Prop
  | p, [] => ∃ p', p.getNextHeader = some (p', none)
  | p, c :: cs => ∃ p₁ p₂, p.getNextHeader = some (p₁, some c.header) ∧
      p₁.getNextMsg accepts = some (p₂, some c.bytes) ∧ Plays accepts p₂ cs

def RoundTrip (accepts : UInt8 → List UInt8 → Bool) (type : FileParserType) (cs : List Capture) :
    Prop :=
  ∃ file, saveAll cs = some file ∧ Plays accepts (.openFile type file) cs

/-! ## When it holds -/

/-- No body is too long.  An empty one is not the last; it is taken by the payload of the last body
before it that has bytes, which starts with `stale`. -/
def Fits (accepts : UInt8 → List UInt8 → Bool) : Option UInt8 → List Capture → Prop
  | _, [] => True
  | stale, c :: cs => c.bytes.length < 2 ^ 31 ∧
      (c.bytes = [] → cs ≠ [] ∧ ∃ b, stale = some b ∧ accepts b []) ∧
      Fits accepts (c.bytes.head?.or stale) cs

/-! ## Numbers -/

theorem toUInt8_digit {c : Char} (h : c.isDigit) :
    Char.ofUInt8 c.toUInt8 = c ∧ c.toUInt8 ≠ delimeter ∧ c.toUInt8 ≠ 0 ∧ c.toUInt8 ≠ colon := by
  have hd : 48 ≤ c.toNat ∧ c.toNat ≤ 57 := Char.isDigit_iff_toNat.1 h
  have hall : ∀ n, n < 58 → 48 ≤ n → Char.ofUInt8 (Char.ofNat n).toUInt8 = Char.ofNat n ∧
      (Char.ofNat n).toUInt8 ≠ delimeter ∧ (Char.ofNat n).toUInt8 ≠ 0 ∧
      (Char.ofNat n).toUInt8 ≠ colon := by decide
  have hc := hall c.toNat (by omega) hd.1
  rwa [Char.ofNat_toNat] at hc

theorem isDigit_of_mem_digits {n : Nat} {b : UInt8} (h : b ∈ digits n) :
    (Char.ofUInt8 b).isDigit ∧ b ≠ delimeter ∧ b ≠ 0 ∧ b ≠ colon := by
  obtain ⟨c, hc, rfl⟩ := mem_map.1 h
  have hd : c.isDigit = true := Nat.isDigit_of_mem_toDigits (by decide) (by decide) hc
  obtain ⟨hof, hrest⟩ := toUInt8_digit hd
  rw [hof]
  exact ⟨hd, hrest⟩

theorem map_digits (n : Nat) : (digits n).map Char.ofUInt8 = Nat.toDigits 10 n := by
  rw [digits, map_map]
  refine (map_congr_left fun c hc => ?_).trans (map_id _)
  exact (toUInt8_digit (Nat.isDigit_of_mem_toDigits (by decide) (by decide) hc)).1

theorem leadingNat_digits (n : Nat) : Lib.leadingNat ((digits n).map Char.ofUInt8) = n := by
  have hpadded : Lib.padded 0 n = Nat.toDigits 10 n := by
    rw [Lib.padded, List.leftpad, Nat.zero_sub]; rfl
  have hread := @Lib.leadingNat_padded [] 0 n (by simp)
  rwa [append_nil, hpadded, ← map_digits] at hread

theorem digits_injective {m n : Nat} (h : digits m = digits n) : m = n := by
  rw [← leadingNat_digits m, h, leadingNat_digits]

theorem isNumeric_digits (n : Nat) : PlaybackFileParser.isNumeric (digits n) :=
  all_eq_true.2 fun _ hb => (isDigit_of_mem_digits hb).1

theorem length_digits_mono {m n : Nat} (h : m ≤ n) : (digits m).length ≤ (digits n).length := by
  unfold digits
  rw [length_map, length_map]
  have hpos : 0 < (Nat.toDigits 10 n).length := Nat.length_toDigits_pos
  rw [Nat.length_toDigits_le_iff (by decide) hpos]
  refine Nat.lt_of_le_of_lt h ?_
  exact (Nat.length_toDigits_le_iff (by decide) hpos).1 (Nat.le_refl _)

/-! ## The readers -/

namespace FileParser

variable {delim : UInt8} {size : Nat}

theorem untilMapped_eq {text rest : List UInt8} (hfree : ∀ b ∈ text, b ≠ delim) (i : Nat)
    (hroom : i + text.length < size) :
    untilMapped size delim i (text ++ delim :: rest) =
      some (text ++ [delim], i + text.length + (if rest = [] then 0 else 1), text.length + 1) := by
  induction text generalizing i with
  | nil =>
    have hi : ¬ i ≥ size := Nat.not_le.2 hroom
    rw [nil_append, untilMapped, if_neg hi]
    by_cases hrest : rest = []
    · rw [if_pos hrest, if_pos hrest]; rfl
    · rw [if_neg hrest, if_neg hrest, if_pos rfl]; rfl
  | cons b text ih =>
    rw [length_cons] at hroom
    have hi : ¬ i ≥ size := by omega
    have hmore : text ++ delim :: rest ≠ [] := append_ne_nil_of_right_ne_nil _ (cons_ne_nil _ _)
    have hrest := ih (fun b' hb' => hfree b' (mem_cons_of_mem b hb')) (i + 1) (by omega)
    rw [cons_append, untilMapped, if_neg hi, if_neg hmore, if_neg (hfree b mem_cons_self), hrest]
    dsimp only [Option.bind_eq_bind, Option.bind_some]
    rw [length_cons, cons_append, Nat.add_right_comm i 1, Nat.add_assoc i text.length 1]

theorem untilStream_eq {text rest : List UInt8} (hfree : ∀ b ∈ text, b ≠ delim) (i : Nat)
    (hroom : i + text.length < size) :
    untilStream size delim i (text ++ delim :: rest) =
      some (text ++ [delim], i + text.length + 1, text.length + 1) := by
  induction text generalizing i with
  | nil =>
    have hi : ¬ i ≥ size := Nat.not_le.2 hroom
    rw [nil_append, untilStream, if_neg hi, if_pos rfl]
    rfl
  | cons b text ih =>
    rw [length_cons] at hroom
    have hi : ¬ i ≥ size := by omega
    have hrest := ih (fun b' hb' => hfree b' (mem_cons_of_mem b hb')) (i + 1) (by omega)
    rw [cons_append, untilStream, if_neg hi, if_neg (hfree b mem_cons_self), hrest]
    dsimp only [Option.bind_eq_bind, Option.bind_some]
    rw [length_cons, cons_append, Nat.add_right_comm i 1, Nat.add_assoc i text.length 1]

def At (p : FileParser) (rest : List UInt8) : Prop :=
  ∃ done, p.file = done ++ rest ∧ p.mFileCurrentOffset = done.length

theorem At.ahead {p : FileParser} {rest : List UInt8} (h : p.At rest) : p.ahead = rest := by
  obtain ⟨done, hfile, hoffset⟩ := h
  rw [FileParser.ahead, hfile, hoffset, drop_left]

theorem At.isEndOfFile {p : FileParser} {rest : List UInt8} (h : p.At rest) :
    p.isEndOfFile = decide (rest = []) := by
  obtain ⟨done, hfile, hoffset⟩ := h
  rw [FileParser.isEndOfFile, hfile, length_append]
  refine decide_eq_decide.2 ?_
  rw [← length_eq_zero_iff]
  omega

theorem At.advance {p : FileParser} {bytes rest : List UInt8} (h : p.At (bytes ++ rest)) {n : Nat}
    (hn : n = bytes.length) :
    ({ p with mFileCurrentOffset := p.mFileCurrentOffset + n } : FileParser).At rest := by
  obtain ⟨done, hfile, hoffset⟩ := h
  refine ⟨done ++ bytes, by rw [append_assoc]; exact hfile, ?_⟩
  rw [hoffset, hn, length_append]

/-- A text and its delimiter.  Of a mapped file that ends with it, the last byte of the text is not
counted. -/
theorem At.readUntil {p : FileParser} {text rest : List UInt8} (h : p.At (text ++ delim :: rest))
    (hfree : ∀ b ∈ text, b ≠ delim) (hroom : text.length < size) (htext : text ≠ []) :
    ∃ p', p.readFileToBufferUntilCharacter size delim = some (p', text ++ [delim],
        if p.mType = .mmap ∧ rest = [] then text.length - 1 else text.length) ∧
      p'.At rest ∧ p'.mType = p.mType := by
  have hpos : 0 < text.length := length_pos_iff.2 htext
  have hat : ({ p with mFileCurrentOffset := p.mFileCurrentOffset + (text.length + 1) } :
      FileParser).At rest := by
    have hsplit : p.At ((text ++ [delim]) ++ rest) := by rwa [append_assoc]
    exact hsplit.advance (by simp)
  refine ⟨_, ?_, hat, rfl⟩
  rw [readFileToBufferUntilCharacter, h.ahead]
  cases htype : p.mType with
  | mmap =>
    rw [untilMapped_eq hfree 0 (by omega)]
    dsimp only [Option.bind_eq_bind, Option.bind_some]
    by_cases hrest : rest = []
    · rw [if_pos hrest, if_neg (by omega), if_pos ⟨htype ▸ rfl, hrest⟩]; simp
    · rw [if_neg hrest, if_neg (by omega), if_neg fun hand => hrest hand.2]
      simp
  | fileStream => rw [untilStream_eq hfree 0 (by omega)]; simp

end FileParser

namespace PlaybackFileParser

/-! ## A header and a message -/

theorem afterLast_append {before text : List UInt8} (h : ∀ b ∈ text, b ≠ colon) :
    afterLast (before ++ colon :: text) = some text := by
  have hnone : ∀ text : List UInt8, (∀ b ∈ text, b ≠ colon) → afterLast text = none := by
    intro text h
    induction text with
    | nil => rfl
    | cons b text ih =>
      rw [afterLast, ih fun b' hb' => h b' (mem_cons_of_mem b hb')]
      exact if_neg (h b mem_cons_self)
  induction before with
  | nil => rw [nil_append, afterLast, hnone text h]; exact if_pos rfl
  | cons b before ih => rw [cons_append, afterLast, ih]

/-- The parser stands before some bytes, with `stale` at the start of its buffer. -/
structure Ready (p : PlaybackFileParser) (type : FileParserType) (rest : List UInt8)
    (stale : Option UInt8) : Prop where
  at_rest : p.myFileReader.At rest
  mType : p.myFileReader.mType = type
  buffer : p.myMsgBuffer.bind List.head? = stale

variable {p : PlaybackFileParser} {type : FileParserType} {rest : List UInt8} {stale : Option UInt8}
  {c : Capture} {accepts : UInt8 → List UInt8 → Bool}

theorem Ready.getNextHeader_nil (h : p.Ready type [] stale) : p.getNextHeader = some (p, none) := by
  rw [getNextHeader, h.at_rest.isEndOfFile]
  rfl

theorem text_spec (hc : c.WellFormed) :
    (∀ b ∈ c.text, b ≠ delimeter ∧ b ≠ 0) ∧ c.text.length < headerSize ∧ c.text ≠ [] ∧
      afterLast c.text = some (digits (c.bytes.length % 2 ^ 32)) ∧
      (c.text = c.header ↔ c.bytes.length < 2 ^ 32) := by
  have htext : c.text = (c.source ++ [colon] ++ c.transport ++ [colon] ++ c.symbol) ++
      colon :: digits (c.bytes.length % 2 ^ 32) := by
    rw [Capture.text, append_assoc]
    rfl
  have hheader : c.header = (c.source ++ [colon] ++ c.transport ++ [colon] ++ c.symbol) ++
      colon :: digits c.bytes.length := by
    rw [Capture.header, append_assoc]
    rfl
  refine ⟨fun b hb => ?_, ?_, ?_, ?_, ?_⟩
  · have hcolon : colon ≠ delimeter ∧ colon ≠ 0 := by decide
    have hfree := hc.free b
    rw [htext] at hb
    simp only [mem_append, mem_cons, not_mem_nil, or_false] at hb hfree
    rcases hb with ((((hb | rfl) | hb) | rfl) | hb) | (rfl | hb)
    · exact hfree (.inl (.inl hb))
    · exact hcolon
    · exact hfree (.inl (.inr hb))
    · exact hcolon
    · exact hfree (.inr hb)
    · exact hcolon
    · exact ⟨(isDigit_of_mem_digits hb).2.1, (isDigit_of_mem_digits hb).2.2.1⟩
  · refine Nat.lt_of_le_of_lt ?_ hc.short
    have hmono := length_digits_mono (Nat.mod_le c.bytes.length (2 ^ 32))
    rw [htext, hheader]
    simp only [length_append, length_cons]
    omega
  · rw [htext]; exact append_ne_nil_of_right_ne_nil _ (cons_ne_nil _ _)
  · rw [htext]; exact afterLast_append fun b hb => (isDigit_of_mem_digits hb).2.2.2
  rw [htext, hheader, append_right_inj, cons_inj_right]
  constructor
  · intro hsame
    rw [← digits_injective hsame]
    exact Nat.mod_lt _ (by decide)
  · intro hlt
    rw [Nat.mod_eq_of_lt hlt]

theorem Ready.getNextHeader (hc : c.WellFormed)
    (h : p.Ready type (c.text ++ delimeter :: rest) stale) :
    ∃ p', p'.Ready type rest stale ∧
      (if type = .mmap ∧ rest = [] then
        ∃ header, p.getNextHeader = some (p', some header) ∧ header.length < c.text.length
      else p.getNextHeader = some (p', some c.text) ∧
        p'.myMamaMsgLen = toLength (c.bytes.length % 2 ^ 32)) := by
  obtain ⟨hat, htype, hbuffer⟩ := h
  obtain ⟨hfree, hroom, hne, hafter, -⟩ := text_spec hc
  obtain ⟨reader, hread, hrest, hreader⟩ := hat.readUntil (fun b hb => (hfree b hb).1) hroom hne
  have heof : p.myFileReader.isEndOfFile = false := by
    rw [hat.isEndOfFile]; exact decide_eq_false (append_ne_nil_of_right_ne_nil _ (cons_ne_nil _ _))
  have hkept : ∀ (q : PlaybackFileParser) (text : List UInt8),
      (q.saveMsgLength text).myFileReader = q.myFileReader ∧
        (q.saveMsgLength text).myMsgBuffer = q.myMsgBuffer := by
    intro q text
    unfold saveMsgLength
    split <;> exact ⟨rfl, rfl⟩
  have hready : ∀ text : List UInt8,
      (({ p with myFileReader := reader } : PlaybackFileParser).saveMsgLength text).Ready type rest
        stale := by
    intro text
    obtain ⟨hsame, hsame'⟩ := hkept { p with myFileReader := reader } text
    refine ⟨?_, ?_, ?_⟩
    · rwa [hsame]
    · rw [hsame]; exact hreader.trans htype
    · rwa [hsame']
  have hpos : 0 < c.text.length := length_pos_iff.2 hne
  have hrun : ∀ n, (if p.myFileReader.mType = .mmap ∧ rest = [] then c.text.length - 1
      else c.text.length) = n →
      p.getNextHeader = some
        (({ p with myFileReader := reader } : PlaybackFileParser).saveMsgLength
            (((c.text ++ [delimeter]).take n).takeWhile fun b => b ≠ 0),
          some (((c.text ++ [delimeter]).take n).takeWhile fun b => b ≠ 0)) := by
    intro n hn
    unfold PlaybackFileParser.getNextHeader
    rw [if_neg (by rw [heof]; exact Bool.false_ne_true), hread, hn]
    rfl
  rw [htype] at hrun
  split_ifs at hrun ⊢ with hlast
  · refine ⟨_, hready _, _, hrun _ rfl, ?_⟩
    refine Nat.lt_of_le_of_lt (takeWhile_sublist _).length_le ?_
    rw [length_take]
    omega
  have hheader : ((c.text ++ [delimeter]).take c.text.length).takeWhile (fun b => b ≠ 0) =
      c.text := by
    rw [take_left]; exact takeWhile_eq_self_iff.2 fun b hb => decide_eq_true (hfree b hb).2
  have hwhole := hrun _ rfl
  rw [hheader] at hwhole
  refine ⟨_, hready c.text, hwhole, ?_⟩
  rw [saveMsgLength, hafter]
  dsimp only
  rw [isNumeric_digits, if_pos rfl, leadingNat_digits]

theorem Ready.getNextMsg (h : p.Ready type (c.bytes ++ rest) stale)
    (hlen : p.myMamaMsgLen = c.bytes.length) (hshort : c.bytes.length < 2 ^ 63) {first : UInt8}
    {more : List UInt8} (hbytes : c.bytes = first :: more) (haccepts : accepts first c.bytes) :
    ∃ p', p.getNextMsg accepts = some (p', some c.bytes) ∧ p'.Ready type rest (some first) := by
  obtain ⟨hat, htype, -⟩ := h
  have hne : c.bytes ≠ [] := by
    rw [hbytes]; exact cons_ne_nil _ _
  have heof : p.myFileReader.isEndOfFile = false := by
    rw [hat.isEndOfFile]; exact decide_eq_false (append_ne_nil_of_left_ne_nil hne _)
  have hread : p.myFileReader.readFileToBuffer p.myMamaMsgLen =
      ({ p.myFileReader with
        mFileCurrentOffset := p.myFileReader.mFileCurrentOffset + c.bytes.length }, c.bytes) := by
    unfold FileParser.readFileToBuffer
    rw [hlen, if_neg fun h0 => hne (length_eq_zero_iff.1 h0), hat.ahead, take_left]
  have hbuffer : ∃ tail, c.bytes ++ p.buffer.drop c.bytes.length = first :: tail := by
    rw [hbytes]; exact ⟨_, rfl⟩
  obtain ⟨tail, htail⟩ := hbuffer
  have htake : (first :: tail).take p.myMamaMsgLen = c.bytes := by rw [← htail, hlen, take_left]
  refine ⟨{ p with
    myFileReader := { p.myFileReader with
      mFileCurrentOffset := p.myFileReader.mFileCurrentOffset + c.bytes.length }
    myMsgBuffer := some (first :: tail)
    myMamaMsg := c.bytes }, ?_, ?_, htype, rfl⟩
  · unfold PlaybackFileParser.getNextMsg
    rw [if_neg (by rw [hlen]; omega), if_neg (by rw [heof]; exact Bool.false_ne_true), hread]
    dsimp only
    rw [htail]
    dsimp only
    rw [htake, if_pos haccepts]
  · exact hat.advance rfl

/-- The message of a capture without bytes is set just if the file goes on, and the payload of the
byte that is still in the buffer takes it. -/
theorem Ready.getNextMsg_nil (h : p.Ready type rest stale) (hlen : p.myMamaMsgLen = 0)
    (accepts : UInt8 → List UInt8 → Bool) :
    (rest ≠ [] → ∀ b, stale = some b → accepts b [] →
      ∃ p', p.getNextMsg accepts = some (p', some []) ∧ p'.Ready type rest stale) ∧
    (¬ (rest ≠ [] ∧ ∃ b, stale = some b ∧ accepts b []) →
      ∀ p', p.getNextMsg accepts ≠ some (p', some [])) := by
  obtain ⟨hat, htype, hstale⟩ := h
  have hread : p.myFileReader.readFileToBuffer p.myMamaMsgLen = (p.myFileReader, []) := by
    rw [FileParser.readFileToBuffer, hlen, if_pos rfl]
  have hbuffer : p.buffer = p.myMsgBuffer.getD [] := by
    rw [PlaybackFileParser.buffer, hlen]
    cases p.myMsgBuffer with
    | none => rfl
    | some buffer => simp
  have hhead : p.buffer.head? = stale := by
    rw [hbuffer, ← hstale]
    cases p.myMsgBuffer <;> rfl
  have hrun : rest ≠ [] → p.getNextMsg accepts = p.buffer.rec none fun first tail _ =>
      if accepts first []
        then some ({ p with myMsgBuffer := some (first :: tail), myMamaMsg := [] }, some [])
        else some ({ p with myMsgBuffer := some (first :: tail) }, none) := by
    intro hrest
    have heof : p.myFileReader.isEndOfFile = false := by
      rw [hat.isEndOfFile]; exact decide_eq_false hrest
    unfold PlaybackFileParser.getNextMsg
    rw [if_neg (by rw [hlen]; decide), if_neg (by rw [heof]; exact Bool.false_ne_true), hread, hlen]
    dsimp only
    rw [nil_append, length_nil, drop_zero]
    cases p.buffer with
    | nil => rfl
    | cons first tail => rw [take_zero]
  constructor
  · intro hrest b hb haccepts
    cases hp : p.buffer with
    | nil => rw [hp, hb] at hhead; cases hhead
    | cons first tail =>
      rw [hp, hb] at hhead
      cases hhead
      rw [hrun hrest, hp]
      dsimp only
      rw [if_pos haccepts]
      exact ⟨_, rfl, hat, htype, hb.symm⟩
  intro hnot p' hsome
  by_cases hrest : rest = []
  · have heof : p.myFileReader.isEndOfFile := by
      rw [hat.isEndOfFile]; exact decide_eq_true hrest
    unfold PlaybackFileParser.getNextMsg at hsome
    rw [if_neg (by rw [hlen]; decide), if_pos heof] at hsome
    cases hsome
  rw [hrun hrest] at hsome
  cases hp : p.buffer with
  | nil => rw [hp] at hsome; cases hsome
  | cons first tail =>
    rw [hp] at hsome hhead
    dsimp only at hsome
    split_ifs at hsome with haccepts
    · exact hnot ⟨hrest, first, hhead.symm, haccepts⟩
    · cases hsome

end PlaybackFileParser

/-! ## All captures -/

def saved (cs : List Capture) : List UInt8 :=
  cs.flatMap fun c => c.text ++ delimeter :: c.bytes

theorem saved_cons (c : Capture) (cs : List Capture) :
    saved (c :: cs) = c.text ++ delimeter :: (c.bytes ++ saved cs) := by
  unfold saved
  rw [flatMap_cons, append_assoc, cons_append]

theorem saved_eq_nil {cs : List Capture} : saved cs = [] ↔ cs = [] := by
  constructor
  · intro h
    cases cs with
    | nil => rfl
    | cons c cs =>
      rw [saved_cons] at h; exact absurd h (append_ne_nil_of_right_ne_nil _ (cons_ne_nil _ _))
  · rintro rfl; rfl

theorem saveAll_eq {cs : List Capture} (hcs : ∀ c ∈ cs, c.WellFormed) :
    saveAll cs = some (saved cs) := by
  have hfrom : ∀ (cs : List Capture) (file : List UInt8), (∀ c ∈ cs, c.WellFormed) →
      cs.foldlM saveMamaMsg file = some (file ++ saved cs) := by
    intro cs
    induction cs with
    | nil => intro file _; exact congrArg some (append_nil file).symm
    | cons c cs ih =>
      intro file hcs
      have hsave : saveMamaMsg file c = some (file ++ c.text ++ [delimeter] ++ c.bytes) :=
        if_pos (PlaybackFileParser.text_spec (hcs c mem_cons_self)).2.1
      rw [foldlM_cons, hsave]
      show cs.foldlM saveMamaMsg _ = _
      rw [ih _ fun c' hc' => hcs c' (mem_cons_of_mem c hc'), saved_cons]
      simp
  exact hfrom cs [] hcs

open PlaybackFileParser in
theorem plays_iff_of_ready {accepts : UInt8 → List UInt8 → Bool} {type : FileParserType}
    {cs : List Capture} (hcs : ∀ c ∈ cs, c.WellFormed)
    (haccepts : ∀ c ∈ cs, ∀ b bs, c.bytes = b :: bs → accepts b c.bytes)
    {p : PlaybackFileParser} {stale : Option UInt8} (h : p.Ready type (saved cs) stale) :
    Plays accepts p cs ↔ Fits accepts stale cs := by
  induction cs generalizing p stale with
  | nil => exact iff_of_true ⟨p, h.getNextHeader_nil⟩ trivial
  | cons c cs ih =>
    have hc := hcs c mem_cons_self
    have hrest : ∀ {p : PlaybackFileParser} {stale : Option UInt8}, p.Ready type (saved cs) stale →
        (Plays accepts p cs ↔ Fits accepts stale cs) :=
      ih (fun c' hc' => hcs c' (mem_cons_of_mem c hc'))
        fun c' hc' => haccepts c' (mem_cons_of_mem c hc')
    rw [saved_cons] at h
    obtain ⟨p₁, hready, hheader⟩ := h.getNextHeader hc
    obtain ⟨-, -, -, -, htext⟩ := text_spec hc
    split_ifs at hheader with hlast
    · -- the last byte of the file is the delimiter
      obtain ⟨hbytes, hcs⟩ := append_eq_nil_iff.1 hlast.2
      obtain ⟨header, hget, hshorter⟩ := hheader
      refine iff_of_false ?_ fun hfits => (hfits.2.1 hbytes).1 (saved_eq_nil.1 hcs)
      rintro ⟨p₁', p₂, hget', -⟩
      rw [hget, Option.some.injEq, Prod.mk.injEq, Option.some.injEq] at hget'
      have hzero : c.bytes.length < 2 ^ 32 := by
        rw [hbytes]; decide
      rw [hget'.2, htext.2 hzero] at hshorter
      exact Nat.lt_irrefl _ hshorter
    obtain ⟨hget, hlen⟩ := hheader
    have hstep : Plays accepts p (c :: cs) ↔ c.bytes.length < 2 ^ 32 ∧
        ∃ p₂, p₁.getNextMsg accepts = some (p₂, some c.bytes) ∧ Plays accepts p₂ cs := by
      constructor
      · rintro ⟨p₁', p₂, hget', hmsg, hplays⟩
        rw [hget, Option.some.injEq, Prod.mk.injEq, Option.some.injEq] at hget'
        obtain ⟨rfl, hsame⟩ := hget'
        exact ⟨htext.1 hsame, p₂, hmsg, hplays⟩
      · rintro ⟨hlt, p₂, hmsg, hplays⟩; exact ⟨p₁, p₂, by rw [hget, htext.2 hlt], hmsg, hplays⟩
    rw [hstep]
    unfold Fits
    by_cases hshort : c.bytes.length < 2 ^ 31
    · have hlt : c.bytes.length < 2 ^ 32 := by omega
      have hsmall : c.bytes.length < 2 ^ 63 := by omega
      rw [Nat.mod_eq_of_lt hlt, toLength, Nat.mod_eq_of_lt hlt, if_pos hshort] at hlen
      rw [and_iff_right hlt, and_iff_right hshort]
      cases hbytes : c.bytes with
      | cons b bs =>
        have haccepted := haccepts c mem_cons_self b bs hbytes
        obtain ⟨p₂, hmsg, hready₂⟩ := hready.getNextMsg hlen hsmall hbytes haccepted
        have hnil : (b :: bs = [] → cs ≠ [] ∧ ∃ b, stale = some b ∧ accepts b []) :=
          fun hnil => absurd hnil (cons_ne_nil b bs)
        rw [and_iff_right hnil]
        show _ ↔ Fits accepts (some b) cs
        rw [← hrest hready₂, ← hbytes]
        constructor
        · rintro ⟨p₂', hmsg', hplays⟩
          rw [hmsg] at hmsg'
          obtain ⟨rfl, -⟩ := hmsg'
          exact hplays
        · exact fun hplays => ⟨p₂, hmsg, hplays⟩
      | nil =>
        rw [hbytes] at hready hlen
        obtain ⟨hsets, hfails⟩ := hready.getNextMsg_nil hlen accepts
        have hmore : saved cs ≠ [] ↔ cs ≠ [] := not_congr saved_eq_nil
        rw [nil_append] at hsets hfails
        rw [hmore] at hsets hfails
        show _ ↔ _ ∧ Fits accepts stale cs
        by_cases hgood : cs ≠ [] ∧ ∃ b, stale = some b ∧ accepts b []
        · obtain ⟨hmore, b, hb, haccepted⟩ := hgood
          obtain ⟨p₂, hmsg, hready₂⟩ := hsets hmore b hb haccepted
          rw [and_iff_right fun _ => ⟨hmore, b, hb, haccepted⟩, ← hrest hready₂]
          constructor
          · rintro ⟨p₂', hmsg', hplays⟩
            rw [hmsg] at hmsg'
            obtain ⟨rfl, -⟩ := hmsg'
            exact hplays
          · exact fun hplays => ⟨p₂, hmsg, hplays⟩
        · exact iff_of_false (fun ⟨p₂, hmsg, _⟩ => hfails hgood p₂ hmsg)
            fun hfits => hgood (hfits.1 rfl)
    -- the length is cut to 32 bits, and then negative
    refine iff_of_false ?_ fun hfits => hshort hfits.1
    rintro ⟨hlt, p₂, hmsg, -⟩
    rw [Nat.mod_eq_of_lt hlt, toLength, Nat.mod_eq_of_lt hlt, if_neg hshort] at hlen
    have heof : p₁.myFileReader.isEndOfFile = false := by
      rw [hready.at_rest.isEndOfFile]
      refine decide_eq_false fun hnil => hshort ?_
      rw [(append_eq_nil_iff.1 hnil).1]
      decide
    unfold PlaybackFileParser.getNextMsg at hmsg
    rw [if_pos (by rw [hlen]; omega), if_neg (by rw [heof]; exact Bool.false_ne_true)] at hmsg
    cases hmsg

/-- **What is captured is played back**, by either reader, just if the bodies fit. -/
theorem roundTrip_iff (accepts : UInt8 → List UInt8 → Bool) (type : FileParserType)
    {cs : List Capture} (hcs : ∀ c ∈ cs, c.WellFormed)
    (haccepts : ∀ c ∈ cs, ∀ b bs, c.bytes = b :: bs → accepts b c.bytes) :
    RoundTrip accepts type cs ↔ Fits accepts none cs := by
  have hready : (PlaybackFileParser.openFile type (saved cs)).Ready type (saved cs) none :=
    ⟨⟨[], rfl, rfl⟩, rfl, rfl⟩
  rw [RoundTrip, saveAll_eq hcs, ← plays_iff_of_ready hcs haccepts hready]
  constructor
  · rintro ⟨file, hfile, hplays⟩
    cases hfile
    exact hplays
  · exact fun hplays => ⟨_, rfl, hplays⟩

/-! ### Two captures -/

/-- A capture of `SRC`, `T` and `A:B`. -/
def captureOf (bytes : List UInt8) : Capture := ⟨[83, 82, 67], [84], [65, 58, 66], bytes⟩

theorem captureOf_wellFormed {bytes : List UInt8} (h : bytes.length < 10) :
    (captureOf bytes).WellFormed := by
  have hfree : ∀ b ∈ [83, 82, 67] ++ [84] ++ [65, 58, 66], b ≠ delimeter ∧ b ≠ 0 := by
    decide +kernel
  refine ⟨hfree, ?_⟩
  have hdigits : (digits bytes.length).length ≤ 1 := by
    rwa [digits, length_map, Nat.length_toDigits_le_iff (by decide) (by decide)]
  unfold Capture.header captureOf headerSize
  simp only [length_append, length_cons, length_nil]
  omega

/-- Bodies with a delimiter, a colon and a null, and none in between. -/
theorem roundTrip_bytes :
    RoundTrip (fun _ _ => true) .mmap [captureOf [29, 58, 0], captureOf [], captureOf [7]] ∧
      RoundTrip (fun _ _ => true) .fileStream
        [captureOf [29, 58, 0], captureOf [], captureOf [7]] := by
  have hall : ∀ type, RoundTrip (fun _ _ => true) type
      [captureOf [29, 58, 0], captureOf [], captureOf [7]] := by
    intro type
    refine (roundTrip_iff _ type ?_ fun _ _ _ _ _ => rfl).2 ?_
    · intro c hc
      simp only [mem_cons, not_mem_nil, or_false] at hc
      rcases hc with rfl | rfl | rfl <;> exact captureOf_wellFormed (by decide)
    · exact ⟨by decide, nofun, by decide,
        fun _ => ⟨cons_ne_nil _ _, 29, rfl, rfl⟩, by decide, nofun,
        trivial⟩
  exact ⟨hall .mmap, hall .fileStream⟩

/-- A body of no bytes at the end is not played back, nor is one at the start. -/
theorem not_roundTrip : (captureOf []).WellFormed ∧ (captureOf [7]).WellFormed ∧
    ¬ RoundTrip (fun _ _ => true) .mmap [captureOf [7], captureOf []] ∧
    ¬ RoundTrip (fun _ _ => true) .fileStream [captureOf [7], captureOf []] ∧
    ¬ RoundTrip (fun _ _ => true) .mmap [captureOf [], captureOf [7]] := by
  have hplays : ∀ (type : FileParserType) (cs : List Capture), (∀ c ∈ cs, c.WellFormed) →
      RoundTrip (fun _ _ => true) type cs → Fits (fun _ _ => true) none cs := by
    rintro type cs hcs ⟨file, hfile, hplays⟩
    cases (saveAll_eq hcs).symm.trans hfile
    exact (plays_iff_of_ready hcs (fun _ _ _ _ _ => rfl) ⟨⟨[], rfl, rfl⟩, rfl, rfl⟩).1 hplays
  have hempty : (captureOf []).WellFormed := captureOf_wellFormed (by decide)
  have hseven : (captureOf [7]).WellFormed := captureOf_wellFormed (by decide)
  have hboth : ∀ c ∈ [captureOf [7], captureOf []], c.WellFormed := by simpa using ⟨hseven, hempty⟩
  have hboth' : ∀ c ∈ [captureOf [], captureOf [7]], c.WellFormed := by simpa using ⟨hempty, hseven⟩
  refine ⟨hempty, hseven, fun h => ?_, fun h => ?_, fun h => ?_⟩
  · exact ((hplays _ _ hboth h).2.2.2.1 rfl).1 rfl
  · exact ((hplays _ _ hboth h).2.2.2.1 rfl).1 rfl
  · obtain ⟨-, b, hb, -⟩ := (hplays _ _ hboth' h).2.1 rfl
    cases hb

end Playback

end Mama

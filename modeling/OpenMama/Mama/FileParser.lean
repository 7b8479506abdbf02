import OpenMama.Mama.Playback

/-!
# Files read in pieces

`fileParser_readFileToBuffer` and `fileParser_readFileToBufferUntilCharacter` with the
buffer and the count they write.  The loops that read up to a character count with an
index that goes up in the last condition of the loop, so it has one byte too few or
two where they stop, and `bytesWritten` is one less than that (`mappedLoop_count`).
Where the playback reads on, they give what it reads (`copyUntilCharacter_of_some`).

They keep their promise just where nothing is read; a stream also where it reads its
end as the delimiter (`readsInPieces_iff`).
-/

namespace Mama

open List Option

namespace Playback

namespace FileParser

/-! ## The code -/

/-- The bytes from the start of a buffer on, past its end too. -/
abbrev Buffer := Nat → UInt8

def Buffer.set (dest : Buffer) (i : Nat) (b : UInt8) : Buffer :=
    fun j => if j = i then b else dest j

/-- Writes some bytes from index `i` on. -/
def Buffer.write (dest : Buffer) (i : Nat) : List UInt8 → Buffer
  | [] => dest
  | b :: bytes => (dest.set i b).write (i + 1) bytes

/-- `i++` of an `int`; there is none past the greatest. -/
def increment (i : Nat) : Option Nat := if i + 1 < 2 ^ 31 then some (i + 1) else none

/-- The loop of a mapped file over the bytes ahead; none if it reads past them. -/
def mappedLoop (destBufferSize : Nat) (delim : UInt8) :
    List UInt8 → Nat → Buffer → Option (Buffer × Nat × List UInt8)
  | [], _, _ => none
  | b :: ahead, i, dest =>
    if i < destBufferSize ∧ ahead ≠ [] then do
      let next ← increment i
      if b ≠ delim then mappedLoop destBufferSize delim ahead next (dest.set i b)
      else some (dest.set i b, next, ahead)
    else some (dest.set i b, i, ahead)

/-- `fgetc`, as a `char`: `EOF` behind the last byte. -/
def fgetc : List UInt8 → UInt8 × List UInt8
  | [] => (255, [])
  | b :: ahead => (b, ahead)

/-- The loop of a stream, with `room` more bytes in the buffer. -/
def streamLoop (delim : UInt8) :
    Nat → List UInt8 → Nat → Buffer → Option (Buffer × Nat × List UInt8)
  | 0, ahead, i, dest => some (dest.set i (fgetc ahead).1, i, (fgetc ahead).2)
  | room + 1, ahead, i, dest => do
    let next ← increment i
    if (fgetc ahead).1 ≠ delim then
      streamLoop delim room (fgetc ahead).2 next (dest.set i (fgetc ahead).1)
    else some (dest.set i (fgetc ahead).1, next, (fgetc ahead).2)

structure Copied where
  parser : FileParser
  dest : Buffer
  bytesWritten : Nat

/-- `fileParser_readFileToBufferUntilCharacter`, for some bytes. -/
def copyUntilCharacter (p : FileParser) (dest : Buffer) (destBufferSize : Nat) (delim : UInt8) :
    Option Copied := do
  let (dest, i, ahead) ← match p.mType with
    | .mmap => mappedLoop destBufferSize delim p.ahead 0 dest
    | .fileStream => streamLoop delim destBufferSize p.ahead 0 dest
  some ⟨{ p with mFileCurrentOffset := p.mFileCurrentOffset + (p.ahead.length - ahead.length) },
    dest,
    (((i : Int) - 1) % 2 ^ 64).toNat⟩

/-- `fileParser_readFileToBuffer`, for some bytes, with the count that was there. -/
def copyToBuffer (p : FileParser) (dest : Buffer) (destBufferSize bytesWritten : Nat) :
    Option Copied :=
  match p.mType with
  | .mmap =>
    let bytesToCopy := if p.file.length < (p.mFileCurrentOffset + destBufferSize) % 2 ^ 64 then
      p.file.length - p.mFileCurrentOffset else destBufferSize
    if bytesToCopy ≤ p.ahead.length then
      some ⟨{ p with mFileCurrentOffset := p.mFileCurrentOffset + bytesToCopy },
        dest.write 0 (p.ahead.take bytesToCopy), bytesWritten⟩
    else none
  | .fileStream =>
    let bytes := p.ahead.take destBufferSize
    some ⟨{ p with mFileCurrentOffset := p.mFileCurrentOffset + bytes.length },
      dest.write 0 bytes, bytes.length⟩

/-! ## What is wanted -/

structure Request where
  destBufferSize : Nat
  delim : UInt8
  pos : 0 < destBufferSize
  fits : destBufferSize < 2 ^ 64

def upTo (delim : UInt8) : List UInt8 → List UInt8
  | [] => []
  | b :: bytes => if b = delim then [b] else b :: upTo delim bytes

/-- The bytes of one call: they are in the buffer and nothing is behind its size, they are counted,
and the position moves by them. -/
structure Copies (p : FileParser) (bytes : List UInt8) (destBufferSize : Nat) (dest : Buffer)
    (r : Copied) : Prop where
  copied : ∀ i b, bytes[i]? = some b → r.dest i = b
  bounds : ∀ i, destBufferSize ≤ i → r.dest i = dest i
  count : r.bytesWritten = bytes.length
  parser : r.parser = { p with mFileCurrentOffset := p.mFileCurrentOffset + bytes.length }

/-- **Calls up to a character until the end of the file**: each copies the bytes up to its
delimiter, as many as fit. -/
def ReadsUntil : FileParser → List Request → Prop
  | _, [] => True
  | p, q :: requests => p.isEndOfFile = false → ∀ dest, ∃ r,
      p.copyUntilCharacter dest q.destBufferSize q.delim = some r ∧
      p.Copies (upTo q.delim (p.ahead.take q.destBufferSize)) q.destBufferSize dest r ∧
      ReadsUntil r.parser requests

def ReadsBuffer : FileParser → List Request → Prop
  | _, [] => True
  | p, q :: requests => p.isEndOfFile = false → ∀ dest bytesWritten, ∃ r,
      p.copyToBuffer dest q.destBufferSize bytesWritten = some r ∧
      p.Copies (p.ahead.take q.destBufferSize) q.destBufferSize dest r ∧
      ReadsBuffer r.parser requests

/-- Both functions read a file in pieces with either type of parser. -/
def ReadsInPieces (file : List UInt8) (requests : List Request) : Prop :=
  ∀ type, ReadsUntil ⟨type, file, 0⟩ requests ∧ ReadsBuffer ⟨type, file, 0⟩ requests

/-! ## Mapped files -/

variable {dest : Buffer} {i : Nat} {p : FileParser}
variable {dest' : Buffer} {j : Nat} {r : Copied} {rest : List UInt8}

section Mapped

variable {destBufferSize : Nat} {delim : UInt8}

theorem increment_eq (h : increment i = some j) : j = i + 1 ∧ i + 1 < 2 ^ 31 := by
  unfold increment at h
  split at h
  · next hlt => exact ⟨(some.inj h).symm, hlt⟩
  · cases h

/-- **The index stays behind the bytes that are read**, and where it does not move only one is. -/
theorem mappedLoop_count {ahead : List UInt8}
    (h : mappedLoop destBufferSize delim ahead i dest = some (dest', j, rest)) :
    j + rest.length ≤ i + ahead.length ∧ i ≤ j ∧ (j = i → rest.length + 1 = ahead.length) := by
  induction ahead generalizing i dest with
  | nil => exact absurd h (by simp [mappedLoop])
  | cons b ahead ih =>
    unfold mappedLoop at h
    split at h
    · cases hnext : increment i with
      | none => simp [hnext] at h
      | some next =>
        obtain ⟨hsucc, -⟩ := increment_eq hnext
        rw [hnext, bind_eq_bind, bind_some] at h
        split at h
        · obtain ⟨hsum, hle, -⟩ := ih h
          rw [length_cons]
          exact ⟨by omega, by omega, fun hsame => by omega⟩
        · simp only [Option.some.injEq] at h
          obtain ⟨-, rfl, rfl⟩ := h
          rw [length_cons]
          exact ⟨by omega, by omega, fun hsame => by omega⟩
    · simp only [Option.some.injEq] at h
      obtain ⟨-, rfl, rfl⟩ := h
      rw [length_cons]
      exact ⟨by omega, Nat.le_refl _, fun _ => rfl⟩

theorem not_copies_mapped (htype : p.mType = .mmap)
    (hrun : p.copyUntilCharacter dest destBufferSize delim = some r) (bytes : List UInt8) :
    ¬p.Copies bytes destBufferSize dest r := by
  rintro ⟨-, -, hcount, hparser⟩
  unfold copyUntilCharacter at hrun
  rw [htype] at hrun
  obtain ⟨⟨dest', j, rest⟩, hloop, hr⟩ := bind_eq_some_iff.mp hrun
  obtain ⟨hsum, -, hone⟩ := mappedLoop_count hloop
  rw [← some.inj hr] at hcount hparser
  have hoffset := congrArg mFileCurrentOffset hparser
  dsimp only at hcount hoffset
  omega

end Mapped

/-! ## Streams -/

section Stream

variable {delim : UInt8}

theorem set_same (dest : Buffer) (i : Nat) (b : UInt8) : dest.set i b i = b := if_pos rfl

theorem set_other (dest : Buffer) (b : UInt8) (h : j ≠ i) : dest.set i b j = dest j :=
  if_neg h

theorem streamLoop_nil (room i : Nat) (dest : Buffer) : streamLoop delim (room + 1) [] i dest =
    (increment i).bind fun next =>
      if 255 ≠ delim then streamLoop delim room [] next (dest.set i 255)
      else some (dest.set i 255, next, []) := rfl

theorem streamLoop_cons (room i : Nat) (b : UInt8) (ahead : List UInt8) (dest : Buffer) :
    streamLoop delim (room + 1) (b :: ahead) i dest = (increment i).bind fun next =>
      if b ≠ delim then streamLoop delim room ahead next (dest.set i b)
      else some (dest.set i b, next, ahead) := rfl

/-- How the loop of a stream ends: at a delimiter in the file, at the end of the buffer with a byte
behind it, or at the end of the file, if that is read as the delimiter. -/
theorem streamLoop_cases {room : Nat} {ahead : List UInt8}
    (h : streamLoop delim room ahead i dest = some (dest', j, rest)) :
    (∃ n, n < ahead.length ∧ j = i + n + 1 ∧ rest.length + (n + 1) = ahead.length) ∨
      (j = i + room ∧ rest.length = ahead.length - (room + 1) ∧
        dest' j = ahead[room]?.getD 255) ∨
      (delim = 255 ∧ delim ∉ ahead ∧ ahead.length < room ∧ i + ahead.length + 1 < 2 ^ 31) := by
  induction room generalizing ahead i dest with
  | zero =>
    obtain ⟨rfl, rfl, rfl⟩ := h
    refine .inr (.inl ⟨rfl, ?_, ?_⟩)
    · cases ahead <;> rfl
    · rw [set_same]
      cases ahead <;> rfl
  | succ room ih =>
    cases ahead with
    | nil =>
      rw [streamLoop_nil] at h
      obtain ⟨next, hnext, h⟩ := bind_eq_some_iff.mp h
      obtain ⟨hsucc, hsmall⟩ := increment_eq hnext
      split at h
      · next hdelim =>
        rcases ih h with ⟨n, hn, -, -⟩ | ⟨hj, hrest, hbyte⟩ | ⟨heof, -, -, -⟩
        · exact absurd hn (Nat.not_lt_zero n)
        · refine .inr (.inl ⟨by omega, ?_, hbyte⟩)
          rw [hrest, length_nil, Nat.zero_sub, Nat.zero_sub]
        · exact absurd heof.symm hdelim
      · next hdelim =>
        exact .inr (.inr ⟨(not_not.mp hdelim).symm, not_mem_nil, Nat.succ_pos room, hsmall⟩)
    | cons b ahead =>
      rw [streamLoop_cons] at h
      obtain ⟨next, hnext, h⟩ := bind_eq_some_iff.mp h
      obtain ⟨hsucc, hsmall⟩ := increment_eq hnext
      rw [length_cons]
      split at h
      · next hdelim =>
        rcases ih h with ⟨n, hn, hj, hrest⟩ | ⟨hj, hrest, hbyte⟩ | ⟨heof, hmem, hroom, hlt⟩
        · refine .inl ⟨n + 1, Nat.succ_lt_succ hn, by omega, ?_⟩
          rw [← Nat.add_assoc, hrest]
        · exact .inr (.inl ⟨by omega, by omega, hbyte⟩)
        · refine .inr (.inr ⟨heof, ?_, Nat.succ_lt_succ hroom, by omega⟩)
          rw [mem_cons, not_or]
          exact ⟨fun hb => hdelim hb.symm, hmem⟩
      · simp only [Option.some.injEq] at h
        obtain ⟨-, rfl, rfl⟩ := h
        exact .inl ⟨0, Nat.succ_pos _, by omega, rfl⟩

theorem streamLoop_end {room : Nat} {ahead : List UInt8} (dest : Buffer) (hmem : 255 ∉ ahead)
    (hroom : ahead.length < room) (hlt : i + ahead.length + 1 < 2 ^ 31) :
    streamLoop 255 room ahead i dest =
      some ((dest.write i ahead).set (i + ahead.length) 255, i + ahead.length + 1, []) := by
  induction ahead generalizing room i dest with
  | nil =>
    obtain ⟨room, rfl⟩ : ∃ k, room = k + 1 := ⟨room - 1, by simp at hroom; omega⟩
    have hnext : increment i = some (i + 1) := if_pos hlt
    rw [streamLoop_nil, hnext]
    rfl
  | cons b ahead ih =>
    obtain ⟨room, rfl⟩ : ∃ k, room = k + 1 := ⟨room - 1, by simp at hroom; omega⟩
    rw [length_cons] at hroom hlt
    rw [mem_cons, not_or] at hmem
    have hnext : increment i = some (i + 1) := if_pos (by omega)
    rw [streamLoop_cons, hnext, bind_some, if_pos (fun hb => hmem.1 hb.symm), ih _ hmem.2 (by omega)
      (by omega), show i + 1 + ahead.length = i + (ahead.length + 1) by omega]
    rfl

end Stream

/-! ## Pieces -/

variable {bytes : List UInt8}

section Pieces

theorem write_below (bytes : List UInt8) : ∀ (dest : Buffer) {i j : Nat}, j < i →
    dest.write i bytes j = dest j := by
  induction bytes with
  | nil => exact fun _ _ _ _ => rfl
  | cons b bytes ih =>
    intro dest i j h
    show (dest.set i b).write (i + 1) bytes j = _
    rw [ih _ (by omega), set_other _ _ (by omega)]

theorem write_above (bytes : List UInt8) : ∀ (dest : Buffer) {i j : Nat}, i + bytes.length ≤ j →
    dest.write i bytes j = dest j := by
  induction bytes with
  | nil => exact fun _ _ _ _ => rfl
  | cons b bytes ih =>
    intro dest i j h
    rw [length_cons] at h
    show (dest.set i b).write (i + 1) bytes j = _
    rw [ih _ (by omega), set_other _ _ (by omega)]

theorem write_at (bytes : List UInt8) :
    ∀ (dest : Buffer) {i n : Nat} {b : UInt8}, bytes[n]? = some b →
    dest.write i bytes (i + n) = b := by
  induction bytes with
  | nil => exact fun _ _ _ _ h => absurd h (by simp)
  | cons c bytes ih =>
    intro dest i n b h
    cases n with
    | zero =>
      have hkept := write_below bytes (dest.set i c) (Nat.lt_add_one i)
      exact hkept.trans ((set_same dest i c).trans (some.inj h))
    | succ n => rw [show i + (n + 1) = i + 1 + n by omega]; exact ih _ h

theorem upTo_length_le (delim : UInt8) (bytes : List UInt8) :
    (upTo delim bytes).length ≤ bytes.length := by
  induction bytes with
  | nil => exact Nat.le_refl 0
  | cons b bytes ih =>
    unfold upTo
    split
    · exact Nat.succ_le_succ (Nat.zero_le _)
    · exact Nat.succ_le_succ ih

theorem upTo_eq {delim : UInt8} (h : delim ∉ bytes) : upTo delim bytes = bytes := by
  induction bytes with
  | nil => rfl
  | cons b bytes ih =>
    rw [mem_cons, not_or] at h
    rw [upTo, if_neg (fun hb => h.1 hb.symm), ih h.2]

theorem copies_write (p : FileParser) {destBufferSize : Nat} (h : bytes.length ≤ destBufferSize)
    (dest : Buffer) : p.Copies bytes destBufferSize dest
      ⟨{ p with mFileCurrentOffset := p.mFileCurrentOffset + bytes.length }, dest.write 0 bytes,
        bytes.length⟩ := by
  refine ⟨fun i b hb => ?_, fun i hi => ?_, rfl, rfl⟩
  · have hbyte := write_at bytes dest (i := 0) hb
    rwa [Nat.zero_add] at hbyte
  · exact write_above bytes dest (by omega)

theorem isEndOfFile_iff (p : FileParser) : p.isEndOfFile ↔ p.ahead = [] := by
  rw [isEndOfFile, ahead, drop_eq_nil_iff, decide_eq_true_eq]

end Pieces

/-! ## The loops of the playback -/

section Loops

variable {destBufferSize : Nat} {delim : UInt8} {n : Nat} (hsize : destBufferSize < 2 ^ 31)

include hsize

theorem mappedLoop_of_some {ahead : List UInt8} (dest : Buffer)
    (h : untilMapped destBufferSize delim i ahead = some (bytes, j, n)) :
    mappedLoop destBufferSize delim ahead i dest = some (dest.write i bytes, j, ahead.drop n) ∧
      j ≤ destBufferSize ∧ n ≤ ahead.length := by
  induction ahead generalizing i dest bytes n with
  | nil => cases h
  | cons b ahead ih =>
    unfold untilMapped at h
    split at h
    · cases h
    next hi =>
    have hnext : increment i = some (i + 1) := if_pos (by omega)
    split at h
    · next hend =>
      obtain ⟨rfl, rfl, rfl⟩ := h
      rw [mappedLoop, if_neg (fun hmore => hmore.2 hend)]
      exact ⟨rfl, by omega, Nat.succ_pos _⟩
    next hmore =>
    rw [mappedLoop, if_pos ⟨by omega, hmore⟩, hnext]
    split at h
    · next hdelim =>
      obtain ⟨rfl, rfl, rfl⟩ := h
      rw [bind_eq_bind, bind_some, if_neg (not_not.mpr hdelim)]
      exact ⟨rfl, by omega, Nat.succ_pos _⟩
    next hdelim =>
    obtain ⟨⟨bytes, j, n⟩, hrest, heq⟩ := bind_eq_some_iff.mp h
    obtain ⟨rfl, rfl, rfl⟩ := heq
    obtain ⟨hloop, hj, hn⟩ := ih (dest.set i b) hrest
    rw [bind_eq_bind, bind_some, if_pos hdelim, hloop]
    exact ⟨rfl, hj, Nat.succ_le_succ hn⟩

theorem streamLoop_of_some {ahead : List UInt8} {room : Nat} (hroom : i + room = destBufferSize)
    (dest : Buffer) (h : untilStream destBufferSize delim i ahead = some (bytes, j, n)) :
    streamLoop delim room ahead i dest = some (dest.write i bytes, j, ahead.drop n) ∧
      j ≤ destBufferSize ∧ n ≤ ahead.length := by
  induction ahead generalizing i room dest bytes n with
  | nil => cases h
  | cons b ahead ih =>
    unfold untilStream at h
    split at h
    · cases h
    next hi =>
    have hnext : increment i = some (i + 1) := if_pos (by omega)
    obtain ⟨room, rfl⟩ : ∃ k, room = k + 1 := ⟨room - 1, by omega⟩
    rw [streamLoop_cons, hnext, bind_some]
    split at h
    · next hdelim =>
      obtain ⟨rfl, rfl, rfl⟩ := h
      rw [if_neg (not_not.mpr hdelim)]
      exact ⟨rfl, by omega, Nat.succ_pos _⟩
    next hdelim =>
    obtain ⟨⟨bytes, j, n⟩, hrest, heq⟩ := bind_eq_some_iff.mp h
    obtain ⟨rfl, rfl, rfl⟩ := heq
    have hleft : i + 1 + room = destBufferSize := by omega
    obtain ⟨hloop, hj, hn⟩ := ih hleft (dest.set i b) hrest
    rw [if_pos hdelim, hloop]
    exact ⟨rfl, hj, Nat.succ_le_succ hn⟩

theorem told_of_some {q : FileParser} {bytes' : List UInt8} {count : Nat}
    (hi : i ≤ destBufferSize) (hn : n ≤ p.ahead.length) (dest : Buffer)
    (h : (if i = 0 then none
      else some ({ p with mFileCurrentOffset := p.mFileCurrentOffset + n }, bytes, i - 1)) =
        some (q, bytes', count)) :
    some (Copied.mk { p with
        mFileCurrentOffset := p.mFileCurrentOffset + (p.ahead.length - (p.ahead.drop n).length) }
      (dest.write 0 bytes) (((i : Int) - 1) % 2 ^ 64).toNat) =
        some ⟨q, dest.write 0 bytes', count⟩ := by
  split at h
  · cases h
  obtain ⟨rfl, rfl, rfl⟩ := h
  have hcount : (((i : Int) - 1) % 2 ^ 64).toNat = i - 1 := by omega
  have hoffset : p.ahead.length - (p.ahead.drop n).length = n := by rw [length_drop]; omega
  rw [hcount, hoffset]

end Loops

section Sessions

variable {file : List UInt8}

theorem readsUntil_end (h : p.isEndOfFile) (requests : List Request) : ReadsUntil p requests := by
  cases requests with
  | nil => trivial
  | cons q requests => exact fun hnot => nomatch h.symm.trans hnot

theorem readsBuffer_end (h : p.isEndOfFile) (requests : List Request) : ReadsBuffer p requests := by
  cases requests with
  | nil => trivial
  | cons q requests => exact fun hnot => nomatch h.symm.trans hnot

theorem readsBuffer_stream (requests : List Request) :
    ∀ p : FileParser, p.mType = .fileStream → ReadsBuffer p requests := by
  induction requests with
  | nil => exact fun _ _ => trivial
  | cons q requests ih =>
    intro p htype _ dest bytesWritten
    refine ⟨_, ?_, copies_write p (length_take_le q.destBufferSize p.ahead) dest, ih _ htype⟩
    rw [copyToBuffer, htype]

theorem not_copies_buffer (htype : p.mType = .mmap) {destBufferSize bytesWritten : Nat}
    (hrun : p.copyToBuffer dest destBufferSize bytesWritten = some r)
    (hcount : bytesWritten ≠ bytes.length) : ¬p.Copies bytes destBufferSize dest r := by
  intro h
  unfold copyToBuffer at hrun
  rw [htype] at hrun
  dsimp only at hrun
  generalize (if p.file.length < (p.mFileCurrentOffset + destBufferSize) % 2 ^ 64 then
    p.file.length - p.mFileCurrentOffset else destBufferSize) = bytesToCopy at hrun
  split at hrun
  · rw [← some.inj hrun] at h; exact hcount h.count
  · cases hrun

/-- The first piece of a stream is right just if it is the whole file, which does not fill the
buffer, and the end of the file is read as the delimiter. -/
theorem copies_stream_iff (htype : p.mType = .fileStream) (q : Request) :
    (∀ dest, ∃ r, p.copyUntilCharacter dest q.destBufferSize q.delim = some r ∧
      p.Copies (upTo q.delim (p.ahead.take q.destBufferSize)) q.destBufferSize dest r) ↔
    q.delim = 255 ∧ 255 ∉ p.ahead ∧ p.ahead.length < q.destBufferSize ∧
      p.ahead.length + 1 < 2 ^ 31 := by
  have hlimit : (upTo q.delim (p.ahead.take q.destBufferSize)).length ≤ q.destBufferSize :=
    Nat.le_trans (upTo_length_le _ _) (length_take_le _ _)
  constructor
  · intro hall
    obtain ⟨r, hrun, -, hbounds, hcount, hparser⟩ := hall fun _ => 0
    unfold copyUntilCharacter at hrun
    rw [htype] at hrun
    obtain ⟨⟨dest', j, rest⟩, hloop, hr⟩ := bind_eq_some_iff.mp hrun
    rw [← some.inj hr] at hbounds hcount hparser
    have hoffset := congrArg mFileCurrentOffset hparser
    dsimp only at hbounds hcount hoffset
    have hfits := q.fits
    rcases streamLoop_cases hloop with ⟨n, hn, hj, hrest⟩ | ⟨hj, hrest, hbyte⟩ | hend
    · omega
    · have hlast : p.ahead.length = q.destBufferSize - 1 := by omega
      have hkept := hbounds j (by omega)
      rw [hbyte, getElem?_eq_none (by omega)] at hkept
      cases hkept
    · obtain ⟨hdelim, hmem, hroom, hsmall⟩ := hend
      exact ⟨hdelim, hdelim ▸ hmem, hroom, by omega⟩
  rintro ⟨hdelim, hmem, hroom, hsmall⟩ dest
  have hloop := streamLoop_end (i := 0) dest hmem hroom (by omega)
  have hpiece : upTo q.delim (p.ahead.take q.destBufferSize) = p.ahead := by
    rw [hdelim, take_of_length_le (Nat.le_of_lt hroom), upTo_eq hmem]
  rw [Nat.zero_add] at hloop
  refine ⟨⟨{ p with mFileCurrentOffset := p.mFileCurrentOffset + p.ahead.length },
    (dest.write 0 p.ahead).set p.ahead.length 255, p.ahead.length⟩, ?_, ?_⟩
  · rw [copyUntilCharacter, htype]
    dsimp only
    have hcount : ((((p.ahead.length + 1 : Nat) : Int) - 1) % 2 ^ 64).toNat = p.ahead.length := by
      omega
    rw [hdelim, hloop, bind_eq_bind, bind_some]
    rw [hcount, length_nil, Nat.sub_zero]
  rw [hpiece]
  refine ⟨fun i b hb => ?_, fun i hi => ?_, rfl, rfl⟩
  · have hlt := (List.getElem?_eq_some_iff.mp hb).1
    have hbyte := write_at p.ahead dest (i := 0) hb
    rw [Nat.zero_add] at hbyte
    dsimp only
    rw [set_other _ _ (by omega), hbyte]
  · dsimp only
    rw [set_other _ _ (by omega), write_above _ _ (by omega)]

variable {type : FileParserType}

theorem isEndOfFile_new : isEndOfFile ⟨type, file, 0⟩ = true ↔ file = [] :=
  isEndOfFile_iff _

theorem isEndOfFile_false (h : file ≠ []) : isEndOfFile ⟨type, file, 0⟩ = false := by
  rwa [← Bool.not_eq_true, isEndOfFile_new]

section

variable (requests : List Request)

include requests

/-- **A mapped file is read up to characters as promised** only where there is nothing to read. -/
theorem readsUntil_mapped_iff :
    ReadsUntil ⟨.mmap, file, 0⟩ requests ↔ file = [] ∨ requests = [] := by
  by_cases hfile : file = []
  · exact iff_of_true (readsUntil_end (isEndOfFile_new.mpr hfile) requests) (.inl hfile)
  cases requests with
  | nil => exact iff_of_true trivial (.inr rfl)
  | cons q requests =>
    refine iff_of_false (fun h => ?_) (by simp [hfile])
    obtain ⟨r, hrun, hcopies, -⟩ := h (isEndOfFile_false hfile) fun _ => 0
    exact not_copies_mapped rfl hrun _ hcopies

theorem readsUntil_stream_iff : ReadsUntil ⟨.fileStream, file, 0⟩ requests ↔ file = [] ∨
    requests = [] ∨ ∃ q ∈ requests.head?, q.delim = 255 ∧ 255 ∉ file ∧
    file.length < q.destBufferSize ∧ file.length + 1 < 2 ^ 31 := by
  by_cases hfile : file = []
  · exact iff_of_true (readsUntil_end (isEndOfFile_new.mpr hfile) requests) (.inl hfile)
  cases requests with
  | nil => exact iff_of_true trivial (.inr (.inl rfl))
  | cons q requests =>
    have hiff := copies_stream_iff (p := ⟨.fileStream, file, 0⟩) rfl q
    have hahead : ahead ⟨.fileStream, file, 0⟩ = file := rfl
    rw [hahead] at hiff
    constructor
    · intro h
      refine .inr (.inr ⟨q, rfl, hiff.mp fun dest => ?_⟩)
      obtain ⟨r, hrun, hcopies, -⟩ := h (isEndOfFile_false hfile) dest
      exact ⟨r, hrun, hcopies⟩
    rintro (hnone | hnone | ⟨q', hq', hend⟩) _ dest
    · exact absurd hnone hfile
    · cases hnone
    · obtain rfl : q = q' := some.inj hq'
      obtain ⟨r, hrun, hcopies⟩ := hiff.mpr hend dest
      refine ⟨r, hrun, hcopies, readsUntil_end ?_ requests⟩
      rw [hcopies.parser, hend.1, take_of_length_le (Nat.le_of_lt hend.2.2.1), upTo_eq hend.2.1]
      exact decide_eq_true (by simp)

theorem readsBuffer_mapped_iff :
    ReadsBuffer ⟨.mmap, file, 0⟩ requests ↔ file = [] ∨ requests = [] := by
  by_cases hfile : file = []
  · exact iff_of_true (readsBuffer_end (isEndOfFile_new.mpr hfile) requests) (.inl hfile)
  cases requests with
  | nil => exact iff_of_true trivial (.inr rfl)
  | cons q requests =>
    refine iff_of_false (fun h => ?_) (by simp [hfile])
    obtain ⟨r, hrun, hcopies, -⟩ := h (isEndOfFile_false hfile) (fun _ => 0)
      ((ahead ⟨.mmap, file, 0⟩).take q.destBufferSize).length.succ
    exact not_copies_buffer rfl hrun (Nat.succ_ne_self _) hcopies

end

/-- **When a file is read in pieces as promised**: only where nothing is read.  A stream alone reads
up to a character too where its end is taken for the first one, and always without a character. -/
theorem readsInPieces_iff (file : List UInt8) (requests : List Request) :
    (ReadsInPieces file requests ↔ file = [] ∨ requests = []) ∧
      (ReadsUntil ⟨.mmap, file, 0⟩ requests ↔ file = [] ∨ requests = []) ∧
      (ReadsUntil ⟨.fileStream, file, 0⟩ requests ↔
        file = [] ∨ requests = [] ∨ ∃ q ∈ requests.head?, q.delim = 255 ∧ 255 ∉ file ∧
          file.length < q.destBufferSize ∧ file.length + 1 < 2 ^ 31) ∧
      (ReadsBuffer ⟨.mmap, file, 0⟩ requests ↔ file = [] ∨ requests = []) ∧
      ReadsBuffer ⟨.fileStream, file, 0⟩ requests := by
  refine ⟨?_, readsUntil_mapped_iff requests, readsUntil_stream_iff requests,
    readsBuffer_mapped_iff requests, readsBuffer_stream requests _ rfl⟩
  constructor
  · intro h; exact (readsUntil_mapped_iff requests).mp (h .mmap).1
  · rintro hnone type
    cases type with
    | mmap => exact ⟨(readsUntil_mapped_iff requests).mpr hnone,
        (readsBuffer_mapped_iff requests).mpr hnone⟩
    | fileStream =>
      refine ⟨(readsUntil_stream_iff requests).mpr ?_, readsBuffer_stream requests _ rfl⟩
      exact hnone.imp_right .inl

/-- A file of one byte, read up to a line feed with room for four. -/
theorem not_readsInPieces : ¬ ∀ file requests, ReadsInPieces file requests := by
  intro hall
  obtain ⟨r, hrun, hcopies, -⟩ := (hall [97] [⟨4, 10, by decide, by decide⟩] .mmap).1 rfl fun _ => 0
  have hcount := hcopies.count
  rw [← some.inj hrun] at hcount
  cases hcount

end Sessions

end FileParser

end Playback

end Mama

import OpenMama.Lib.Decimal

/-!
# The data dictionary

A dictionary keeps the descriptor of a field in the slot of its `fid`, in an array that grows.
It is filled by one call for each descriptor, from a file with a line for each, or from a
message with a field for each, and it writes such files and messages.

Texts are lists of characters.  What reads or writes outside of the array has no result.
-/

namespace Mama.Dictionary

/-! ## Descriptors -/

/-- `mamaFieldType`. -/
inductive FieldType
  | MSG | OPAQUE | STRING | BOOL | CHAR | I8 | U8 | I16 | U16 | I32 | U32 | I64 | U64 | F32 | F64
  | TIME | PRICE | VECTOR_I8 | VECTOR_U8 | VECTOR_I16 | VECTOR_U16 | VECTOR_I32 | VECTOR_U32
  | VECTOR_I64 | VECTOR_U64 | VECTOR_F32 | VECTOR_F64 | VECTOR_STRING | VECTOR_MSG | VECTOR_TIME
  | VECTOR_PRICE | QUANTITY | COLLECTION | UNKNOWN
  deriving DecidableEq, Repr

def FieldType.all : List FieldType :=
  [.MSG, .OPAQUE, .STRING, .BOOL, .CHAR, .I8, .U8, .I16, .U16, .I32, .U32, .I64, .U64, .F32, .F64,
    .TIME, .PRICE, .VECTOR_I8, .VECTOR_U8, .VECTOR_I16, .VECTOR_U16, .VECTOR_I32, .VECTOR_U32,
    .VECTOR_I64, .VECTOR_U64, .VECTOR_F32, .VECTOR_F64, .VECTOR_STRING, .VECTOR_MSG, .VECTOR_TIME,
    .VECTOR_PRICE, .QUANTITY, .COLLECTION, .UNKNOWN]

def FieldType.code : FieldType → Int32
  | .MSG => 1
  | .OPAQUE => 7
  | .STRING => 8
  | .BOOL => 9
  | .CHAR => 10
  | .I8 => 14
  | .U8 => 15
  | .I16 => 16
  | .U16 => 17
  | .I32 => 18
  | .U32 => 19
  | .I64 => 20
  | .U64 => 21
  | .F32 => 24
  | .F64 => 25
  | .TIME => 26
  | .PRICE => 27
  | .VECTOR_I8 => 34
  | .VECTOR_U8 => 35
  | .VECTOR_I16 => 36
  | .VECTOR_U16 => 37
  | .VECTOR_I32 => 38
  | .VECTOR_U32 => 39
  | .VECTOR_I64 => 40
  | .VECTOR_U64 => 41
  | .VECTOR_F32 => 44
  | .VECTOR_F64 => 45
  | .VECTOR_STRING => 46
  | .VECTOR_MSG => 47
  | .VECTOR_TIME => 48
  | .VECTOR_PRICE => 49
  | .QUANTITY => 50
  | .COLLECTION => 99
  | .UNKNOWN => 100

def FieldType.ofCode (code : Int32) : Option FieldType :=
  FieldType.all.find? fun type => type.code = code

/-- `mamaFieldDescriptorImpl`. -/
structure FieldDescriptor where
  mFid : UInt16
  mType : Int32
  mName : List Char
  deriving DecidableEq, Repr

/-- The values of `mama_status` that are returned. -/
inductive Status
  | ok
  | invalidArg
  | notFound
  | ioError
  deriving DecidableEq, Repr

/-- `mamaDictionaryImpl`. -/
structure DictionaryImpl where
  mDict : Option (List (Option FieldDescriptor)) := none
  mDictSize : Nat := 0
  mSize : Nat := 0
  mMaxFid : UInt16 := 0
  mHasDuplicates : Bool := false
  mFeedHost : Option (List Char) := none
  mFeedName : Option (List Char) := none
  deriving DecidableEq, Repr

/-- `mamaDictionary_create`. -/
def create : DictionaryImpl := {}

section

variable (d : DictionaryImpl)

def slot (i : Nat) : Option (Option FieldDescriptor) := d.mDict.bind (·[i]?)

/-! ## Making descriptors -/

def createDictArray : DictionaryImpl :=
  { d with
    mDictSize := d.mMaxFid.toNat + 1
    mDict := some (List.replicate (d.mMaxFid.toNat + 1) none) }

/-- The array with room for a `fid`. -/
def ensureCapacity (fid : UInt16) : Option DictionaryImpl :=
  let d := if fid > d.mMaxFid then { d with mMaxFid := fid } else d
  if fid.toNat + 1 > d.mDictSize then
    let slots := d.mDict.getD []
    let newDictNumElements := fid.toNat + 100
    if d.mDictSize ≤ slots.length then
      some { d with
        mDictSize := newDictNumElements
        mDict := some (slots.take d.mDictSize ++
          List.replicate (newDictNumElements - d.mDictSize) none) }
    else
      none
  else
    some d

/-- `mamaDictionary_createFieldDescriptor`. -/
def createFieldDescriptor (fid : UInt16) (name : List Char) (type : Int32) :
    Option DictionaryImpl := do
  let d := if d.mDict.isNone then createDictArray d else d
  let d ← ensureCapacity d fid
  let slots ← d.mDict
  if fid.toNat < slots.length then
    some { d with
      mDict := some (slots.set fid.toNat (some ⟨fid, type, name⟩))
      mSize := d.mSize + 1 }
  else
    none

/-- `mamaDictionary_setMaxFid`; the number is cut to that of a `fid`. -/
def setMaxFid (maxFid : Nat) : Option DictionaryImpl :=
  if d.mDict.isSome then ensureCapacity d (UInt16.ofNat maxFid)
  else some { d with mMaxFid := UInt16.ofNat maxFid }

/-! ## Looking descriptors up -/

/-- `mamaDictionary_getFieldDescriptorByFid`. -/
def getFieldDescriptorByFid (fid : UInt16) : Option (Except Status (Option FieldDescriptor)) :=
  if fid.toNat ≥ d.mDictSize then some (.error .invalidArg)
  else (slot d fid.toNat).map .ok

/-- The loop of `getFieldDescriptorByIndex`, over the slots that are left. -/
def findIndex (index : UInt16) : List Nat → UInt16 → Option (Except Status FieldDescriptor)
  | [], _ => some (.error .notFound)
  | i :: rest, curIndex =>
    match slot d i with
    | none => none
    | some none => findIndex index rest curIndex
    | some (some info) =>
      if curIndex = index then some (.ok info) else findIndex index rest (curIndex + 1)

/-- `mamaDictionary_getFieldDescriptorByIndex`. -/
def getFieldDescriptorByIndex (index : UInt16) : Option (Except Status FieldDescriptor) :=
  if index.toNat ≥ d.mSize then some (.error .invalidArg)
  else findIndex d index (List.range d.mDictSize) 0

/-- The loop of `getFieldDescriptorByName`. -/
def findName (fname : List Char) : List Nat → Option (Except Status FieldDescriptor)
  | [] => some (.error .notFound)
  | i :: rest =>
    match slot d i with
    | none => none
    | some none => findName fname rest
    | some (some info) => if info.mName = fname then some (.ok info) else findName fname rest

/-- `mamaDictionary_getFieldDescriptorByName`. -/
def getFieldDescriptorByName (fname : List Char) : Option (Except Status FieldDescriptor) :=
  findName d fname (List.range d.mDictSize)

/-- The loop of `getFieldDescriptorByNameAll`, whose counter has 16 bits; it has no result
either if there is not enough fuel. -/
def findNameAll (fname : List Char) (size : Nat) :
    Nat → UInt16 → List FieldDescriptor → Option (List FieldDescriptor)
  | 0, _, _ => none
  | fuel + 1, i, list =>
    if i.toNat < d.mDictSize then
      match slot d i.toNat with
      | none => none
      | some none => findNameAll fname size fuel (i + 1) list
      | some (some info) =>
        if info.mName = fname then
          if (list ++ [info]).length = size then some (list ++ [info])
          else findNameAll fname size fuel (i + 1) (list ++ [info])
        else
          findNameAll fname size fuel (i + 1) list
    else
      some list

/-- `mamaDictionary_getFieldDescriptorByNameAll`, for a list with room for `size`. -/
def getFieldDescriptorByNameAll (fname : List Char) (size fuel : Nat) :
    Option (Except Status (List FieldDescriptor)) :=
  if size = 0 then some (.error .invalidArg)
  else (findNameAll d fname size fuel 0 []).map .ok

/-- The inner loop of `checkForDuplicateNames`. -/
def findDuplicate (name : List Char) : List Nat → Option Bool
  | [] => some false
  | j :: rest =>
    match slot d j with
    | none => none
    | some none => findDuplicate name rest
    | some (some info) => if name = info.mName then some true else findDuplicate name rest

def findDuplicates : List Nat → Option Bool
  | [] => some false
  | i :: rest =>
    match slot d i with
    | none => none
    | some none => findDuplicates rest
    | some (some info) =>
      match findDuplicate d info.mName (List.range' (i + 1) (d.mMaxFid.toNat - i)) with
      | none => none
      | some true => some true
      | some false => findDuplicates rest

def checkForDuplicateNames : Option DictionaryImpl :=
  (findDuplicates d (List.range d.mMaxFid.toNat)).map fun found =>
    { d with mHasDuplicates := found }

/-! ## Messages -/

/-- A field of a message, with its value if that is a text. -/
structure MsgField where
  name : List Char
  fid : UInt16
  type : FieldType
  string : Option (List Char) := none
  deriving DecidableEq, Repr

/-- `mamaMsg`. -/
abbrev Msg := List MsgField

/-- `mamaMsg_addI8` and the like, each with its type. -/
def Msg.add (msg : Msg) (type : FieldType) (name : List Char) (fid : UInt16) : Msg :=
  msg ++ [⟨name, fid, type, none⟩]

/-- `mamaMsg_addString`. -/
def Msg.addString (msg : Msg) (name : List Char) (fid : UInt16) (value : List Char) : Msg :=
  msg ++ [⟨name, fid, .STRING, some value⟩]

/-- `mamaMsg_getString`. -/
def Msg.getString (msg : Msg) (fid : UInt16) : Option (List Char) :=
  (msg.find? fun field => field.fid = fid).bind (·.string)

/-- The switch of `populateMessageFromDictionary`. -/
def addDescriptor (msg : Msg) (fd : FieldDescriptor) : Msg :=
  match FieldType.ofCode fd.mType with
  | some .MSG => msg.add .MSG fd.mName fd.mFid
  | some .OPAQUE => msg.add .OPAQUE fd.mName fd.mFid
  | some .STRING => msg.addString fd.mName fd.mFid []
  | some .BOOL => msg.add .BOOL fd.mName fd.mFid
  | some .CHAR => msg.add .CHAR fd.mName fd.mFid
  | some .I8 => msg.add .I8 fd.mName fd.mFid
  | some .U8 => msg.add .U8 fd.mName fd.mFid
  | some .I16 => msg.add .I16 fd.mName fd.mFid
  | some .U16 => msg.add .U16 fd.mName fd.mFid
  | some .I32 => msg.add .I32 fd.mName fd.mFid
  | some .U32 => msg.add .U32 fd.mName fd.mFid
  | some .I64 => msg.add .I64 fd.mName fd.mFid
  | some .U64 => msg.add .U64 fd.mName fd.mFid
  | some .F32 => msg.add .F32 fd.mName fd.mFid
  | some .F64 => msg.add .F64 fd.mName fd.mFid
  | some .TIME => msg.add .TIME fd.mName fd.mFid
  | some .PRICE => msg.add .PRICE fd.mName fd.mFid
  | some .VECTOR_I8 => msg.add .VECTOR_I8 fd.mName fd.mFid
  | some .VECTOR_U8 => msg.add .VECTOR_U8 fd.mName fd.mFid
  | some .VECTOR_I16 => msg.add .VECTOR_I16 fd.mName fd.mFid
  | some .VECTOR_U16 => msg.add .VECTOR_U16 fd.mName fd.mFid
  | some .VECTOR_I32 => msg.add .VECTOR_I32 fd.mName fd.mFid
  | some .VECTOR_U32 => msg.add .VECTOR_U32 fd.mName fd.mFid
  | some .VECTOR_I64 => msg.add .VECTOR_I64 fd.mName fd.mFid
  | some .VECTOR_U64 => msg.add .VECTOR_U64 fd.mName fd.mFid
  | some .VECTOR_F32 => msg.add .VECTOR_F32 fd.mName fd.mFid
  | some .VECTOR_F64 => msg.add .VECTOR_F64 fd.mName fd.mFid
  | some .VECTOR_STRING => msg.add .VECTOR_STRING fd.mName fd.mFid
  | some .VECTOR_MSG => msg.add .VECTOR_MSG fd.mName fd.mFid
  | some .VECTOR_TIME => msg.add .VECTOR_TIME fd.mName fd.mFid
  | some .VECTOR_PRICE => msg.add .VECTOR_PRICE fd.mName fd.mFid
  | _ => msg

/-- A loop over the array that folds over the descriptors. -/
def foldSlots {α : Type} (f : α → FieldDescriptor → α) : List Nat → α → Option α
  | [], x => some x
  | i :: rest, x =>
    match slot d i with
    | none => none
    | some none => foldSlots f rest x
    | some (some fd) => foldSlots f rest (f x fd)

/-- `mamaDictionary_getDictionaryMessage`. -/
def getDictionaryMessage : Option Msg := foldSlots d addDescriptor (List.range d.mDictSize) []

/-- The `fid` of `MamaFieldFeedName`. -/
def feedNameFid : UInt16 := 11

/-- The `fid` of `MamaFieldFeedHost`. -/
def feedHostFid : UInt16 := 12

def dictMsgIterator (msg : Msg) (field : MsgField) : Option DictionaryImpl :=
  let d :=
    if field.fid = feedNameFid then
      match msg.getString field.fid with
      | some val => { d with mFeedName := some val }
      | none => d
    else if field.fid = feedHostFid then
      match msg.getString field.fid with
      | some val => { d with mFeedHost := some val }
      | none => d
    else
      d
  createFieldDescriptor d field.fid field.name field.type.code

def getAndStoreFields (msg : Msg) : Option DictionaryImpl :=
  msg.foldlM (fun d field => dictMsgIterator d msg field) d

def maxIterator (field : MsgField) : DictionaryImpl :=
  if d.mMaxFid < field.fid then { d with mMaxFid := field.fid } else d

def determineMaxFid (msg : Msg) : DictionaryImpl := msg.foldl maxIterator d

/-- `mamaDictionary_buildDictionaryFromMessage`. -/
def buildDictionaryFromMessage (msg : Msg) : Option DictionaryImpl := do
  let d ← getAndStoreFields (determineMaxFid d msg) msg
  checkForDuplicateNames d

/-! ## Files -/

/-- `%d`. -/
def printInt (n : Int) : List Char :=
  if n < 0 then '-' :: Lib.padded 1 n.natAbs else Lib.padded 1 n.natAbs

/-- `snprintf` of a line into a buffer of 256 characters. -/
def printLine (fd : FieldDescriptor) : List Char :=
  (printInt fd.mFid.toNat ++ '|' :: fd.mName ++ '|' :: printInt fd.mType.toInt ++ ['\n']).take 255

/-- `mamaDictionary_writeToFile`: what the file contains. -/
def writeToFile : Option (List Char) :=
  foldSlots d (fun text fd => text ++ printLine fd) (List.range d.mDictSize) []

end

/-- `fgets`: a line, or as many characters of it as there is room for, and what is left. -/
def fgets : Nat → List Char → List Char × List Char
  | 0, text => ([], text)
  | _ + 1, [] => ([], [])
  | room + 1, c :: text =>
    if c = '\n' then ([c], text)
    else
      let (line, rest) := fgets room text
      (c :: line, rest)

def isspace (c : Char) : Bool :=
  c = ' ' ∨ c = '\t' ∨ c = '\n' ∨ c = '\x0b' ∨ c = '\x0c' ∨ c = '\r'

def textAt (buffer : List Char) (i : Nat) : List Char :=
  (buffer.drop i).takeWhile (· ≠ '\x00')

/-- The text in a buffer without the blanks at its end. -/
def stripTrailingWhiteSpace (buffer : List Char) : List Char :=
  ((textAt buffer 0).reverse.dropWhile isspace).reverse

def validateDelimLine (c : List Char) : Bool :=
  match c.dropWhile (· ≠ '|') with
  | [] => false
  -- the first one is not the last
  | _ :: rest => '|' ∈ rest

/-- The buffer with its first delimiter replaced, and where the text after it starts. -/
def getNextDelimStr (buffer : List Char) : List Char × Nat :=
  let i := buffer.findIdx (· = '|')
  (buffer.set i '\x00', i + 1)

def atoi (s : List Char) : Int32 :=
  let s := s.dropWhile isspace
  match s with
  | '-' :: digits => Int32.ofInt (-(Lib.leadingNat digits : Int))
  | '+' :: digits => Int32.ofInt (Lib.leadingNat digits)
  | digits => Int32.ofInt (Lib.leadingNat digits)

def readLine (lineBuffer : List Char) : Option FieldDescriptor :=
  let buffer := stripTrailingWhiteSpace lineBuffer
  if validateDelimLine buffer then
    -- the second delimiter is found from the start of the line as well
    let (buffer, fieldName) := getNextDelimStr buffer
    let (buffer, typeStr) := getNextDelimStr buffer
    some ⟨(atoi (textAt buffer 0)).toUInt32.toUInt16, atoi (textAt buffer typeStr),
      textAt buffer fieldName⟩
  else
    none

/-- The loop of `populateFromFile`; it has no result either if there is not enough fuel. -/
def populate (d : DictionaryImpl) : Nat → List Char → Option DictionaryImpl
  | 0, _ => none
  | fuel + 1, text =>
    match fgets 254 text with
    | ([], _) => some d
    | (lineBuffer, rest) =>
      match readLine lineBuffer with
      | none => populate d fuel rest
      | some fd =>
        match createFieldDescriptor d fd.mFid fd.mName fd.mType with
        | none => none
        | some d => populate d fuel rest

/-- `mamaDictionary_populateFromFile`, for a file that can be opened. -/
def populateFromFile (d : DictionaryImpl) (text : List Char) : Option DictionaryImpl :=
  populate d (text.length + 1) text

end Mama.Dictionary

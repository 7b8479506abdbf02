import OpenMama.Lib.Scanf
import OpenMama.Mama.FaultTolerance

/-!
# `ft.c`: the text of a heartbeat

A multicast member sends its heartbeat as a text: the address in hexadecimal, then
process, weight, incarnation and state as signed numbers, then the name of the group,
with tabs between them.  The receiver reads unsigned numbers and one word, which it
writes with its terminator into a buffer of 100 bytes.

The numbers come back whatever they are.  The name does just if there is no white space
in it, and there is room for it just if it has less than 100 bytes
(`readable_iff`); what was heard then is what was sent (`multicastFt_receiveHeartbeat_send`).
A member whose group has a name with white space in it is heard by nobody
(`unheard_of_space`).

A text is a list of bytes, each of them a character, and ends before its terminator.  The
host is a little endian one.
-/

namespace Mama

open Option

namespace Ft

/-! ## Algorithm -/

/-- The values of `mamaFtState`. -/
def State.code : State → Int32
  | .standby => 0
  | .active => 1
  | .unknown => 99

def htonl (n : UInt32) : UInt32 :=
  UInt32.ofNat (n.toNat % 256 * 2 ^ 24 + n.toNat / 2 ^ 8 % 256 * 2 ^ 16 +
    n.toNat / 2 ^ 16 % 256 * 2 ^ 8 + n.toNat / 2 ^ 24)

def ntohl (n : UInt32) : UInt32 := htonl n

/-- `FT_MAX_PACKET_SIZE`. -/
def maxPacketSize : Nat := 1500

/-- The size of `hbGroupName`. -/
def groupNameSize : Nat := 100

/-- What the conversions of `multicastFt_receiveHeartbeat` store, the address in host order. -/
structure Scanned where
  hbIpAddr : UInt32
  hbPid : UInt32
  hbWeight : UInt32
  hbIncarnation : UInt32
  hbPrimary : UInt32
  hbGroupName : List Char
  deriving DecidableEq

namespace Scanned

def written (s : Scanned) : Nat := s.hbGroupName.length + 1

/-- What `mamaCheckHeartbeat` is called with. -/
def heartbeat (s : Scanned) : Heartbeat :=
  ⟨⟨s.hbWeight, s.hbIncarnation, s.hbIpAddr.toInt32, s.hbPid.toInt32⟩, String.ofList s.hbGroupName⟩

end Scanned

/-- `sscanf` with `%x\t%u\t%u\t%u\t%u\t%s`: nothing unless all six are read. -/
def scanHeartbeat (msg : List Char) : Option Scanned := do
  let (hbIpAddr, msg) ← Lib.readNumber 16 msg
  let (hbPid, msg) ← Lib.readNumber 10 (Lib.skipSpace msg)
  let (hbWeight, msg) ← Lib.readNumber 10 (Lib.skipSpace msg)
  let (hbIncarnation, msg) ← Lib.readNumber 10 (Lib.skipSpace msg)
  let (hbPrimary, msg) ← Lib.readNumber 10 (Lib.skipSpace msg)
  let (hbGroupName, _) ← Lib.readWord (Lib.skipSpace msg)
  some ⟨ntohl (.ofNat hbIpAddr), .ofNat hbPid, .ofNat hbWeight, .ofNat hbIncarnation,
    .ofNat hbPrimary, hbGroupName⟩

namespace Member

variable (x : Member)

/-- The format `%x\t%d\t%d\t%d\t%d\t%s`. -/
def heartbeatText : List Char :=
  Nat.toDigits 16 (htonl x.ip.toUInt32).toNat ++ '\t' :: (Lib.signed x.pid.toInt ++
    '\t' :: (Lib.signed x.weight.toInt32.toInt ++ '\t' :: (Lib.signed x.incarnation.toInt32.toInt ++
      '\t' :: (Lib.signed x.state.code.toInt ++ '\t' :: x.groupName.toList))))

def Fits : Prop := x.heartbeatText.length < maxPacketSize

/-- The text that `multicastFt_sendHeartbeat` puts into its packet. -/
def multicastFt_sendHeartbeat : List Char := x.heartbeatText.take (maxPacketSize - 1)

def multicastFt_receiveHeartbeat (msg : List Char) : Checked :=
  match scanHeartbeat msg with
  | none => ⟨x, false, []⟩
  | some s => x.mamaCheckHeartbeat s.heartbeat

structure Reads (s : Scanned) : Prop where
  ip : s.hbIpAddr = x.ip.toUInt32
  pid : s.hbPid = x.pid.toUInt32
  weight : s.hbWeight = x.weight
  incarnation : s.hbIncarnation = x.incarnation
  state : s.hbPrimary = x.state.code.toUInt32
  groupName : s.hbGroupName = x.groupName.toList

/-- The packet is read back, and its name has room in the buffer. -/
def RoundTrips : Prop :=
  ∃ s, scanHeartbeat x.multicastFt_sendHeartbeat = some s ∧ x.Reads s ∧ s.written ≤ groupNameSize

end Member

/-! ## Numbers -/

theorem toNat_htonl (n : UInt32) : (htonl n).toNat = n.toNat % 256 * 2 ^ 24 +
    n.toNat / 2 ^ 8 % 256 * 2 ^ 16 + n.toNat / 2 ^ 16 % 256 * 2 ^ 8 + n.toNat / 2 ^ 24 := by
  have hlt := n.toNat_lt
  rw [htonl, UInt32.toNat_ofNat']
  omega

theorem sum_bytes (n : Nat) : n / 2 ^ 24 * 2 ^ 24 + n / 2 ^ 16 % 256 * 2 ^ 16 +
    n / 2 ^ 8 % 256 * 2 ^ 8 + n % 256 = n := by
  have hlow := Nat.div_add_mod n 256
  omega

theorem bytes_sum {a b c d : Nat} (hb : b < 256) (hc : c < 256) (hd : d < 256) :
    (a * 2 ^ 24 + b * 2 ^ 16 + c * 2 ^ 8 + d) % 256 = d ∧
      (a * 2 ^ 24 + b * 2 ^ 16 + c * 2 ^ 8 + d) / 2 ^ 8 % 256 = c ∧
      (a * 2 ^ 24 + b * 2 ^ 16 + c * 2 ^ 8 + d) / 2 ^ 16 % 256 = b ∧
      (a * 2 ^ 24 + b * 2 ^ 16 + c * 2 ^ 8 + d) / 2 ^ 24 = a := by
  refine ⟨?_, ?_, ?_, ?_⟩ <;> omega

theorem ntohl_htonl (n : UInt32) : ntohl (htonl n) = n := by
  have hlt := n.toNat_lt
  have hbyte : ∀ k, k % 256 < 256 := fun k => Nat.mod_lt k (by decide)
  obtain ⟨hfirst, hsecond, hthird, hfourth⟩ := bytes_sum (a := n.toNat % 256)
    (hbyte (n.toNat / 2 ^ 8)) (hbyte (n.toNat / 2 ^ 16)) (show n.toNat / 2 ^ 24 < 256 by omega)
  apply UInt32.toNat_inj.mp
  rw [ntohl, toNat_htonl, toNat_htonl, hfirst, hsecond, hthird, hfourth, sum_bytes]

theorem ofNat_toInt (i : Int32) : UInt32.ofNat (i.toInt % 2 ^ 64).toNat = i.toUInt32 := by
  have hint : i.toInt = i.toBitVec.toInt := rfl
  apply UInt32.toNat_inj.mp
  rw [UInt32.toNat_ofNat', hint, BitVec.toInt_eq_toNat_cond]
  show _ = i.toBitVec.toNat
  split <;> omega

theorem readNumber_int32 (i : Int32) {rest : List Char}
    (hrest : ∀ c ∈ rest.head?, Lib.isSpace c) :
    Lib.readNumber 10 (Lib.skipSpace ('\t' :: (Lib.signed i.toInt ++ rest))) =
      some ((i.toInt % 2 ^ 64).toNat, rest) := by
  have htab : Lib.skipSpace ('\t' :: (Lib.signed i.toInt ++ rest)) =
      Lib.skipSpace (Lib.signed i.toInt ++ rest) := rfl
  have hlow := i.le_toInt
  have hhigh := i.toInt_lt
  rw [Lib.readNumber_skipSpace]
  exact Lib.readNumber_signed (by omega) (by omega) hrest

namespace Member

variable {x y : Member}

/-! ## The text -/

theorem scanHeartbeat_text : scanHeartbeat x.heartbeatText =
    (Lib.readWord x.groupName.toList).map fun word =>
      ⟨x.ip.toUInt32, x.pid.toUInt32, x.weight, x.incarnation, x.state.code.toUInt32, word.1⟩ := by
  have htab : ∀ s : List Char, ∀ c ∈ ('\t' :: s).head?, Lib.isSpace c := by
    intro s c hc
    cases hc
    rfl
  have hip := (htonl x.ip.toUInt32).toNat_lt
  have hname : Lib.readWord (Lib.skipSpace ('\t' :: x.groupName.toList)) =
      Lib.readWord x.groupName.toList := Lib.readWord_skipSpace x.groupName.toList
  unfold scanHeartbeat heartbeatText
  rw [Lib.readNumber_toDigits (by decide) (by decide) (by omega) (htab _)]
  simp only [bind_eq_bind, bind_some, readNumber_int32 _ (htab _), hname]
  rw [UInt32.ofNat_toNat, ntohl_htonl, ofNat_toInt, ofNat_toInt, ofNat_toInt, ofNat_toInt]
  cases Lib.readWord x.groupName.toList with
  | none => rfl
  | some word => rfl

theorem multicastFt_sendHeartbeat_of_fits (hfits : x.Fits) :
    x.multicastFt_sendHeartbeat = x.heartbeatText := by
  unfold Fits at hfits
  exact List.take_of_length_le (by omega)

/-- **The packet is read back just if there is no white space in the name of the group and it has
less than 100 bytes.** -/
theorem readable_iff (hne : x.groupName ≠ "") (hfits : x.Fits) : x.RoundTrips ↔
    (∀ c ∈ x.groupName.toList, Lib.isSpace c = false) ∧ x.groupName.length < groupNameSize := by
  have hname : x.groupName.toList ≠ [] := fun h => hne (String.toList_eq_nil_iff.mp h)
  rw [RoundTrips, multicastFt_sendHeartbeat_of_fits hfits, scanHeartbeat_text]
  constructor
  · rintro ⟨s, hscan, hreads, hroom⟩
    obtain ⟨word, hword, rfl⟩ := map_eq_some_iff.mp hscan
    have hsame : word.1 = x.groupName.toList := hreads.groupName
    refine ⟨(Lib.readWord_eq_iff hname).mp ⟨word.2, ?_⟩, ?_⟩
    · rw [hword, ← hsame]
    · unfold Scanned.written at hroom
      rw [hreads.groupName, String.length_toList] at hroom
      omega
  · rintro ⟨hplain, hroom⟩
    obtain ⟨rest, hword⟩ := (Lib.readWord_eq_iff hname).mpr hplain
    refine ⟨_, map_eq_some_iff.mpr ⟨_, hword, rfl⟩, ⟨rfl, rfl, rfl, rfl, rfl, rfl⟩, ?_⟩
    rw [Scanned.written, String.length_toList]
    omega

/-- The credentials of a member of one group are read as they are. -/
theorem readable_main : (Member.new "MAIN" 100 (-7)).RoundTrips := by
  have hplain : ∀ c ∈ ['M', 'A', 'I', 'N'], Lib.isSpace c = false := by simp [Lib.isSpace]
  exact (readable_iff (by decide) (by unfold Fits; decide +kernel)).mpr ⟨hplain, by decide⟩

/-- Of a name with a blank the first word is read. -/
theorem not_readable : ¬ ∀ x : Member, x.groupName ≠ "" → x.Fits → x.RoundTrips := by
  intro h
  obtain ⟨s, hscan, hreads, -⟩ := h (Member.new "MAIN GROUP" 100 (-7)) (by decide)
    (by unfold Fits; decide +kernel)
  have hname : s.hbGroupName = "MAIN".toList := by
    have hmain : (scanHeartbeat (Member.new "MAIN GROUP" 100 (-7)).multicastFt_sendHeartbeat).map
        Scanned.hbGroupName = some "MAIN".toList := by decide +kernel
    rw [hscan] at hmain
    exact some.inj hmain
  have hwhole : s.hbGroupName = "MAIN GROUP".toList := hreads.groupName
  rw [hname] at hwhole
  exact absurd hwhole (by decide +kernel)

/-! ## The receiver -/

/-- With white space in the name of their group, members do not hear each other. -/
theorem unheard_of_space (hfits : x.Fits) (hne : x.groupName ≠ "")
    (hspace : ¬ ∀ c ∈ x.groupName.toList, Lib.isSpace c = false)
    (hgroup : y.groupName = x.groupName) :
    y.multicastFt_receiveHeartbeat x.multicastFt_sendHeartbeat = ⟨y, false, []⟩ := by
  have hname : x.groupName.toList ≠ [] := fun h => hne (String.toList_eq_nil_iff.mp h)
  rw [multicastFt_receiveHeartbeat, multicastFt_sendHeartbeat_of_fits hfits, scanHeartbeat_text]
  cases hword : Lib.readWord x.groupName.toList with
  | none => rfl
  | some word =>
    have hother : String.ofList word.1 ≠ y.groupName := by
      intro heq
      refine hspace ((Lib.readWord_eq_iff hname).mp ⟨word.2, ?_⟩)
      rw [← hgroup, ← heq, String.toList_ofList, ← hword, ← hgroup, ← heq, String.toList_ofList]
    exact if_pos hother

end Member

end Ft

end Mama

import Iwlwifi.Tlv

/-! # Information elements

The identifiers of elements that `net/wireless/scan.c` treats in a special way, the searches through
the elements of a frame (`cfg80211_find_elem_match` and its callers), and the checks of
the Multi-Link element in `include/linux/ieee80211-eht.h` that it uses.

`for_each_element` is `Tlv.scan`: it visits the elements up to the first incomplete one; a pointer
to an element is the element with the bytes after it.  Lengths are natural numbers. -/

namespace Iwlwifi.Cfg80211

open Tlv

/-! ### Identifiers -/

/-- `WLAN_EID_MULTIPLE_BSSID`. -/
def eidMultipleBssid : UInt8 := 71

/-- `WLAN_EID_NON_TX_BSSID_CAP`. -/
def eidNonTxBssidCap : UInt8 := 83

/-- `WLAN_EID_MULTI_BSSID_IDX`. -/
def eidMultiBssidIdx : UInt8 := 85

/-- `WLAN_EID_FRAGMENT`. -/
def eidFragment : UInt8 := 242

/-- `WLAN_EID_EXTENSION`. -/
def eidExtension : UInt8 := 255

/-- `WLAN_EID_EXT_NON_INHERITANCE`. -/
def eidExtNonInheritance : UInt8 := 56

/-- `WLAN_EID_EXT_EHT_MULTI_LINK`. -/
def eidExtEhtMultiLink : UInt8 := 107

/-! ### Searches -/

/-- An element with the bytes after it. -/
abbrev Place := Element × List UInt8

/-- The test of `cfg80211_find_elem_match`. -/
def elemMatches (eid : UInt8) (mtch : List UInt8) (matchOffset : ℕ) (elem : Element) : Bool :=
  elem.id = eid ∧ matchOffset + mtch.length ≤ elem.data.length ∧
    (elem.data.drop matchOffset).take mtch.length = mtch

/-- `cfg80211_find_elem_match`. -/
def findElemMatch (eid : UInt8) (ies mtch : List UInt8) (matchOffset : ℕ) : Option Place :=
  (scan ies).find? fun x => elemMatches eid mtch matchOffset x.1

/-- `cfg80211_find_elem`. -/
def findElem (eid : UInt8) (ies : List UInt8) : Option Place := findElemMatch eid ies [] 0

/-- `cfg80211_find_ext_elem`. -/
def findExtElem (extEid : UInt8) (ies : List UInt8) : Option Place :=
  findElemMatch eidExtension ies [extEid] 0

/-! ### Multi-Link element -/

/-- The `control` field of a Multi-Link element, without the extended identifier. -/
def mleControl (data : List UInt8) : ℕ := (data.getD 0 0).toNat + 256 * (data.getD 1 0).toNat

/-- `n` bytes if a bit of `mask` is set. -/
def present (control mask n : ℕ) : ℕ := if control &&& mask ≠ 0 then n else 0

/-- The size of the common info that the presence bits ask for; none for unknown types. -/
def mleCommon (control : ℕ) : Option ℕ :=
  match control &&& 0x0007 with
  | 0 =>
    some (7 + present control 0x0010 1 + present control 0x0020 1 + present control 0x0040 2 +
      present control 0x0080 2 + present control 0x0100 2 + present control 0x0200 1 +
      present control 0x0400 2 + present control 0x0800 1 + present control 0x1000 1)
  | 1 => some (1 + present control 0x0010 1 + present control 0x0020 6 + present control 0x0040 6)
  | 2 =>
    some (1 + present control 0x0010 6 + present control 0x0020 2 + present control 0x0040 2 +
      present control 0x0080 2 + present control 0x0100 6)
  | 3 => some 7
  | 4 => some 7
  | _ => none

/-- `ieee80211_mle_size_ok`. -/
def mleSizeOk (data : List UInt8) : Bool :=
  if data.length < 2 then false
  else
    match mleCommon (mleControl data) with
    | none => true
    | some common =>
      if data.length < 2 + common then false
      else
        let commonLen := (data.getD 2 0).toNat
        common ≤ commonLen ∧ commonLen ≤ data.length - 2

/-- `ieee80211_mle_type_ok`. -/
def mleTypeOk (data : List UInt8) (type : ℕ) : Bool :=
  mleSizeOk data && mleControl data &&& 0x0007 == type

/-- `ieee80211_mle_get_mld_id`. -/
def mleGetMldId (data : List UInt8) : UInt8 :=
  let control := mleControl data
  if control &&& 0x0200 = 0 then 0
  else
    data.getD (2 + 7 + present control 0x0010 1 + present control 0x0020 1 +
      present control 0x0040 2 + present control 0x0080 2 + present control 0x0100 2) 0

end Iwlwifi.Cfg80211

import Iwlwifi.Bytes
import Iwlwifi.SeqNum

/-! # The 802.11 MAC header

The fields that the receive path reads from the bytes of an MPDU (`struct ieee80211_hdr`), and the
predicates on the frame control word of `include/linux/ieee80211.h` and `net/wireless/util.c`.
Words are little-endian; addresses are compared byte by byte. -/

namespace Iwlwifi.Ieee80211

open Bytes

/-! ### Frame control -/

/-- `fc & IEEE80211_FCTL_FTYPE`. -/
def ftype (fc : ℕ) : ℕ := fc &&& 0x000c

def isMgmt (fc : ℕ) : Bool := ftype fc == 0x0000
def isCtl (fc : ℕ) : Bool := ftype fc == 0x0004
def isData (fc : ℕ) : Bool := ftype fc == 0x0008
def isExt (fc : ℕ) : Bool := ftype fc == 0x000c

/-- `ieee80211_is_data_qos`: only the QoS bit of the subtype matters. -/
def isDataQos (fc : ℕ) : Bool := fc &&& 0x008c == 0x0088

def hasTods (fc : ℕ) : Bool := fc &&& 0x0100 != 0
def hasFromds (fc : ℕ) : Bool := fc &&& 0x0200 != 0
def hasMorefrags (fc : ℕ) : Bool := fc &&& 0x0400 != 0
def hasProtected (fc : ℕ) : Bool := fc &&& 0x4000 != 0
def hasOrder (fc : ℕ) : Bool := fc &&& 0x8000 != 0

/-- `ieee80211_has_a4`: to and from the distribution system. -/
def hasA4 (fc : ℕ) : Bool := fc &&& 0x0300 == 0x0300

/-- `ieee80211_hdrlen`. -/
def hdrlen (fc : ℕ) : ℕ :=
  if isExt fc then 4
  else if isData fc then
    (if hasA4 fc then 30 else 24) +
      if isDataQos fc then 2 + (if hasOrder fc then 4 else 0) else 0
  else if isMgmt fc then 24 + (if hasOrder fc then 4 else 0)
  else if fc &&& 0x00e0 == 0x00c0 then 10
  else 16

/-- Where `ieee80211_get_qos_ctl` finds the QoS control field. -/
def qosCtlOffs (fc : ℕ) : ℕ := if hasA4 fc then 30 else 24

/-! ### Fields -/

def frameControl (data : List UInt8) : ℕ := le16 data 0
def addr1 (data : List UInt8) : List UInt8 := (data.drop 4).take 6
def addr2 (data : List UInt8) : List UInt8 := (data.drop 10).take 6
def seqCtrl (data : List UInt8) : ℕ := le16 data 22

theorem frameControl_append {l : List UInt8} (h : 2 ≤ l.length) (rest : List UInt8) :
    frameControl (l ++ rest) = frameControl l :=
  le16_append h rest

theorem frameControl_setField {l bytes : List UInt8} {off : ℕ}
    (h : 0 + 2 ≤ off ∨ off + bytes.length ≤ 0) (hoff : off ≤ l.length) :
    frameControl (setField l off bytes) = frameControl l :=
  le16_setField h hoff

/-- `is_multicast_ether_addr`: the first bit on the air. -/
def isMulticastEtherAddr (addr : List UInt8) : Bool := (addr.getD 0 0).toNat % 2 == 1

/-- `sc & IEEE80211_SCTL_FRAG`. -/
def fragOf (sc : ℕ) : ℕ := sc % 16

theorem fragOf_lt (sc : ℕ) : fragOf sc < 16 := Nat.mod_lt _ (by omega)

/-- `skb_pull`: nothing happens when the buffer is shorter. -/
def skbPull (data : List UInt8) (len : ℕ) : List UInt8 :=
  if len ≤ data.length then data.drop len else data

end Iwlwifi.Ieee80211

/-
  Gateway devices (`framework/gateway/devmgr/devmgr.c`): the three lists, the reference
  counts and the bit map of the indices.

  A device is a block of the heap.  What runs under one hold of `devlist_lock` is one
  function of the state; a block that is freed is not in the heap, and a function that
  is given one leaves the state.
-/
import Mathlib.Data.Int.Notation
import Mathlib.Data.Nat.Notation
import Mathlib.Logic.Function.Basic

namespace Gateway

/-- A C string, without the terminating NUL. -/
abbrev Str := List UInt8

def DEVMGR_MAX_SUBDEVICE : ℕ := 128

def DEVMGR_PERMITJOIN_ANY_MODEL : UInt32 := 0xffffffff

/-- The `device_idx` of a device without an index. -/
def NO_DEVIDX : UInt8 := 0xff

/-- `devtype_t` -/
inductive DevType
  | gateway | wifi | zigbee | ble | wifiSub
  deriving DecidableEq

/-- `device_state_t` -/
inductive DeviceState
  | initial | authorised | registered | logined | logouted
  deriving DecidableEq

/-- `link_state_t` -/
inductive LinkState
  | offline | online
  deriving DecidableEq

/-- `dev_base_t`; `u` holds the bytes of the IEEE address, or of the MAC address. -/
structure DevBase where
  devType : DevType
  modelId : UInt32
  u : List UInt8
  rand : List UInt8
  sign : Str
  devId : Str
  uuid : Str
  deriving DecidableEq

/-- `dev_info_t` -/
structure DevInfo where
  base : DevBase
  deviceIdx : UInt8
  cloudState : DeviceState
  linkState : LinkState
  refCnt : UInt8
  deriving DecidableEq

/-- The string at `u.ether_mac`: without a zero byte in `u` it goes on behind it. -/
def DevBase.etherMac (b : DevBase) : Str := (b.u ++ b.rand ++ b.sign).takeWhile (· ≠ 0)

/-- What the cloud answers: the uuid of the device after `devmgr_register_device`, if that
    succeeds, what `devmgr_login_device` returns, and whether `devmgr_unregister_device` succeeds. -/
structure Cloud where
  register : Option Str
  login : ℤ
  unregister : Bool

/-- `ALINK_CODE_ERROR_SUBDEV_NO_RELATIONSHIP` and `ALINK_CODE_ERROR_SUBDEV_INVALID_UUID` -/
def subdevGone (ret : ℤ) : Bool := ret = 3065 || ret = 3038

/-- `dev_head`, `unknown_dev_head`, `delele_dev_head` and `devidx_bit_map`. -/
structure Devmgr where
  heap : ℕ → Option DevInfo
  devHead : List ℕ
  unknownDevHead : List ℕ
  deleleDevHead : List ℕ
  devidxBitMap : ℕ → BitVec 8

namespace Devmgr

def init : Devmgr := ⟨fun _ => none, [], [], [], fun _ => 0#8⟩

/-- The devices on `dev_head` or `unknown_dev_head`. -/
def listed (m : Devmgr) : List ℕ := m.devHead ++ m.unknownDevHead

/-- The devices on the three lists. -/
def lists (m : Devmgr) : List ℕ := m.listed ++ m.deleleDevHead

def edit (m : Devmgr) (d : ℕ) (f : DevInfo → DevInfo) : Devmgr :=
  { m with heap := Function.update m.heap d ((m.heap d).map f) }

/-- `dlist_del` on the node of the device. -/
def dlistDel (m : Devmgr) (d : ℕ) : Devmgr :=
  { m with
    devHead := m.devHead.erase d
    unknownDevHead := m.unknownDevHead.erase d
    deleleDevHead := m.deleleDevHead.erase d }

def holdDevinfoRef (m : Devmgr) (d : ℕ) : Devmgr := m.edit d fun x => { x with refCnt := x.refCnt + 1 }

def freeDevinfo (m : Devmgr) (d : ℕ) : Devmgr :=
  { m.dlistDel d with heap := Function.update m.heap d none }

/-- What `devmgr_put_devinfo_ref` and `__remove_devinfo` end with. -/
def dropRef (m : Devmgr) (d : ℕ) : Devmgr :=
  let m := m.edit d fun x => { x with refCnt := x.refCnt - 1 }
  if (m.heap d).any (·.refCnt = 0) then m.freeDevinfo d else m

def putDevinfoRef (m : Devmgr) (d : ℕ) : Devmgr := m.dropRef d

/-- `__get_devinfo` -/
def findDevinfo (m : Devmgr) (name : Str) : Option ℕ :=
  m.devHead.find? fun d => (m.heap d).any fun x =>
    x.base.devId = name || x.base.uuid = name || x.base.etherMac = name

/-- `__get_unknown_devinfo` -/
def findUnknownDevinfo (m : Devmgr) (name : Str) : Option ℕ :=
  m.unknownDevHead.find? fun d => (m.heap d).any fun x => x.base.devId = name || x.base.uuid = name

/-- `__get_devinfo_by_ieeeaddr` -/
def findDevinfoByIeeeaddr (m : Devmgr) (ieeeAddr : List UInt8) : Option ℕ :=
  m.devHead.find? fun d => (m.heap d).any fun x => x.base.devType = .zigbee && x.base.u = ieeeAddr

/-- What the three lookups under the lock have in common: a device that is found is held. -/
def holdFound (m : Devmgr) : Option ℕ → Devmgr
  | none => m
  | some d => m.holdDevinfoRef d

def getDevinfo (m : Devmgr) (name : Str) : Devmgr × Option ℕ :=
  (m.holdFound (m.findDevinfo name), m.findDevinfo name)

def getUnknownDevinfo (m : Devmgr) (name : Str) : Devmgr × Option ℕ :=
  (m.holdFound (m.findUnknownDevinfo name), m.findUnknownDevinfo name)

def getDevinfoByIeeeaddr (m : Devmgr) (ieeeAddr : List UInt8) : Devmgr × Option ℕ :=
  (m.holdFound (m.findDevinfoByIeeeaddr ieeeAddr), m.findDevinfoByIeeeaddr ieeeAddr)

/-! ## Indices -/

/-- The test of a bit of `devidx_bit_map`. -/
def bit (m : Devmgr) (devidx : ℕ) : Bool := m.devidxBitMap (devidx / 8) &&& (0x01#8 <<< (devidx % 8)) ≠ 0#8

def releaseDevidx (m : Devmgr) (devidx : ℕ) : Devmgr :=
  if m.bit devidx then
    { m with
      devidxBitMap := Function.update m.devidxBitMap (devidx / 8)
        (m.devidxBitMap (devidx / 8) &&& ~~~(0x01#8 <<< (devidx % 8))) }
  else m

/-- `__new_devidx`: the first clear bit is set, and is the index of the device. -/
def newDevidx (m : Devmgr) (d : ℕ) : Devmgr × ℤ :=
  match (List.range DEVMGR_MAX_SUBDEVICE).find? fun index => !m.bit index with
  | none => (m, -1)
  | some index =>
    ({ m with
        devidxBitMap := Function.update m.devidxBitMap (index / 8)
          (m.devidxBitMap (index / 8) ||| (0x01#8 <<< (index % 8)))
      }.edit d fun x => { x with deviceIdx := .ofNat index }, 0)

/-! ## The lists -/

def removeDevinfo (m : Devmgr) (d : ℕ) : Devmgr :=
  match m.heap d with
  | none => m
  | some _ =>
    let m := m.edit d fun x => { x with deviceIdx := NO_DEVIDX }
    let m := m.dlistDel d
    { m with deleleDevHead := d :: m.deleleDevHead }.dropRef d

/-- `__delete_devinfo`, and `devmgr_delete_devinfo` under the lock. -/
def deleteDevinfo (m : Devmgr) (d : ℕ) : Devmgr :=
  match m.heap d with
  | none => m
  | some x => (if x.deviceIdx ≠ NO_DEVIDX then m.releaseDevidx x.deviceIdx.toNat else m).removeDevinfo d

/-- `devmgr_new_devinfo` at the block that `os_malloc` gives, which is not in use. -/
def newDevinfo (m : Devmgr) (malloc : Option ℕ) : Devmgr × Option ℕ :=
  match malloc with
  | none => (m, none)
  | some d =>
    if (m.heap d).isSome then (m, none)
    else
      let x : DevInfo :=
        { base := ⟨.gateway, 0, List.replicate 8 0, List.replicate 16 0, [], [], []⟩
          deviceIdx := NO_DEVIDX, cloudState := .initial, linkState := .offline, refCnt := 1 }
      ({ m with heap := Function.update m.heap d (some x) }, some d)

/-- The section of `devmgr_authorise_device` that moves the device to `dev_head`. -/
def moveToDevHead (m : Devmgr) (d : ℕ) : Devmgr :=
  match m.heap d with
  | none => m
  | some _ => let m := m.dlistDel d; { m with devHead := m.devHead ++ [d] }

/-- The sections that put a new device on `dev_head`, or on `unknown_dev_head`. -/
def addTail (m : Devmgr) (d : ℕ) (known : Bool) : Devmgr :=
  match m.heap d with
  | none => m
  | some _ =>
    if known then { m with devHead := m.devHead ++ [d] }
    else { m with unknownDevHead := m.unknownDevHead ++ [d] }

/-! ## The cloud -/

/-- `devmgr_network_leave_event_handler` -/
def networkLeave (m : Devmgr) (d : ℕ) (c : Cloud) : Devmgr :=
  m.edit d fun x =>
    match x.cloudState with
    | .registered | .logined | .logouted => if c.unregister then { x with cloudState := .initial } else x
    | _ => x

/-- `devmgr_network_up_event_handler`; a device that the cloud does not know any more is deleted
    by `devmgr_delete_device_by_devinfo`, without the lock. -/
def networkUp (m : Devmgr) (d : ℕ) (c : Cloud) : Devmgr × ℤ :=
  match m.heap d with
  | none => (m, 0)
  | some x =>
    match x.cloudState with
    | .authorised =>
      match c.register with
      | none => (m, -1)
      | some uuid =>
        let m := m.edit d fun x => { x with base := { x.base with uuid := uuid } }
        if c.login ≠ 0 then (m, c.login) else (m.edit d fun x => { x with cloudState := .logined }, 0)
    | .registered | .logouted =>
      if x.linkState = .online then
        if c.login ≠ 0 then
          if subdevGone c.login then
            (((m.edit d fun x => { x with cloudState := .authorised }).networkLeave d c).deleteDevinfo d, 0)
          else (m, c.login)
        else (m.edit d fun x => { x with cloudState := .logined }, 0)
      else (m, 0)
    | _ => (m, 0)

end Devmgr

/-! ## Joining -/

/-- The arguments of `devmgr_join_zigbee_device`, and what `devmgr_get_permitjoin_short_model`
    returns to it. -/
structure Join where
  ieeeAddr : List UInt8
  modelId : UInt32
  rand : List UInt8
  sign : Str
  permit : UInt32

/-- The first test of `devmgr_join_zigbee_device`. -/
def Join.refused (j : Join) : Bool := j.permit ≠ DEVMGR_PERMITJOIN_ANY_MODEL && j.permit ≠ j.modelId

/-- `permitjoin_model_id == model_id`, behind the default for `DEVMGR_PERMITJOIN_ANY_MODEL`. -/
def Join.permitted (j : Join) : Bool :=
  (if j.permit = DEVMGR_PERMITJOIN_ANY_MODEL then j.modelId else j.permit) = j.modelId

/-- A digit of `%02x`. -/
def hexDigit (n : UInt8) : UInt8 := if n < 10 then 48 + n else 87 + n

/-- `get_ieeeaddr_string_by_extaddr` -/
def ieeeaddrString (extaddr : List UInt8) : Str := extaddr.flatMap fun b => [hexDigit (b / 16), hexDigit (b % 16)]

/-- What a device that is on `dev_head` is set to when it joins again. -/
def DevInfo.rejoin (j : Join) (x : DevInfo) : DevInfo :=
  { x with
    base := { x.base with
      uuid := [], modelId := j.modelId, devType := .zigbee, rand := j.rand, sign := j.sign.take 16 }
    cloudState := .authorised, linkState := .online }

/-- What a new device is set to. -/
def DevInfo.join (j : Join) (x : DevInfo) : DevInfo :=
  { x with
    base := { x.base with
      u := j.ieeeAddr, devId := ieeeaddrString j.ieeeAddr, modelId := j.modelId, rand := j.rand
      sign := j.sign.take 16, devType := .zigbee }
    linkState := .online, cloudState := .initial }

def DevInfo.authorise (x : DevInfo) : DevInfo := { x with cloudState := .authorised }

end Gateway

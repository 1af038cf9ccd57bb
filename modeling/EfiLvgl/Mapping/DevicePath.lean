import EfiLvgl.Mapping.Csd
import EfiLvgl.Lib.CString

/-!
# EfiLvgl.Mapping.DevicePath — names of volumes from their device paths

The rest of `sfsmapping.c`, and the two functions of `usf.c` that look a volume up
by its name. A device path is the list of its nodes up to the end node; a node is
its type, its sub-type and the bytes that follow the header, and its fields are read
little-endian at their offsets.

Several serialisers format into a buffer on the stack with `UnicodeSPrint`, to which
they pass a buffer size of 0: it writes nothing, and what `AppendCSDStr` then scans
is what the stack held before. The contents of these buffers are a parameter of the
model, one for each node (`Stack`). Pool requests are taken to be served.
-/

namespace EfiLvgl.Mapping

open EfiLvgl.CString

/-! ## Device paths -/

/-- A node: the header's type and sub-type, and what follows the header. -/
structure DevicePathNode where
  type : UInt8
  subType : UInt8
  data : List UInt8
  deriving DecidableEq, Repr

/-- The nodes up to the end node. -/
abbrev DevicePath := List DevicePathNode

/-- `DevicePathNodeLength`: the header has four bytes. -/
def DevicePathNode.length (node : DevicePathNode) : Nat := 4 + node.data.length

/-- A little-endian field. -/
def DevicePathNode.field (node : DevicePathNode) (offset size : Nat) : UInt64 :=
  UInt64.ofNat (((node.data.drop offset).take size).foldr (fun b n => b.toNat + 256 * n) 0)

/-- Bytes of a node. -/
def DevicePathNode.bytes (node : DevicePathNode) (offset size : Nat) : List UInt8 :=
  (node.data.drop offset).take size

/-- What the machine answers to a name being made: the three PCDs and, for the path of
a USB device, the class and sub-class of its interface, or nothing when one of the
calls that lead there fails. -/
structure Platform where
  usbExtendedDecode : Bool
  shellVendorExtendedDecode : Nat
  shellDecodeIScsiMapNames : Bool
  usbInterface : DevicePath → Option (UInt8 × UInt8)

/-! ## Printing into a buffer -/

/-- A hexadecimal digit of `%x`. -/
def hexDigitUpper (d : Nat) : Char16 :=
  if d < 10 then ch '0' + UInt16.ofNat d else ch 'A' + UInt16.ofNat (d - 10)

/-- `%02x` of a byte. -/
def hex2 (b : UInt8) : List Char16 := [hexDigitUpper (b.toNat / 16), hexDigitUpper (b.toNat % 16)]

/-- `%lx`. -/
def hexLong (n : UInt64) : List Char16 := (Code.numeral 16 n.toNat).map hexDigitUpper

/-- `%g` of the sixteen bytes of a GUID; its first three fields are little-endian. -/
def printGuid (guid : List UInt8) : List Char16 :=
  let group (bytes : List UInt8) := bytes.flatMap hex2
  group (guid.take 4).reverse ++ ch '-' :: group ((guid.drop 4).take 2).reverse ++
    ch '-' :: group ((guid.drop 6).take 2).reverse ++ ch '-' :: group ((guid.drop 8).take 2) ++
    ch '-' :: group ((guid.drop 10).take 6)

/-- `UnicodeSPrint`: with a buffer size of 0 it writes nothing, otherwise as much of the
text as fits and a terminator. -/
def unicodeSPrint (buffer : List Char16) (bufferSize : Nat) (formatted : List Char16) :
    List Char16 :=
  if bufferSize = 0 then buffer
  else
    let n := min formatted.length (bufferSize / 2 - 1)
    formatted.take n ++ 0 :: buffer.drop (n + 1)

/-- `for (..., PBuffer = Buffer; ...; PBuffer += 2) UnicodeSPrint (PBuffer, 0, L"%02x", ..)`. -/
def printBytes (buffer : List Char16) : List UInt8 → List Char16
  | [] => buffer
  | b :: bytes =>
      let printed := unicodeSPrint buffer 0 (hex2 b)
      printed.take 2 ++ printBytes (printed.drop 2) bytes

/-! ## The serialisers -/

/-- What a serialiser is given: the platform, the contents of its stack buffer, the
whole path and the node. An error status makes the name `NULL`. -/
abbrev SerialFun := Platform → List Char16 → DevicePath → DevicePathNode → MappingInfo →
  Option MappingInfo

/-- `AppendCSDGuid`. -/
def appendCSDGuid (buffer : List Char16) (info : MappingInfo) (guid : List UInt8) : MappingInfo :=
  appendCSDStr info (cstr (unicodeSPrint buffer 0 (printGuid guid)))

/-- `DevPathSerialHardDrive`. -/
def devPathSerialHardDrive : SerialFun := fun _ _ _ node info =>
  let info := if info.mtd = .unknown then { info with mtd := .hardDisk } else info
  some (appendCSDNum info (node.field 0 4))

/-- `DevPathSerialAtapi`. -/
def devPathSerialAtapi : SerialFun := fun _ _ _ node info =>
  some (appendCSDNum info (node.field 0 1 * 2 + node.field 1 1))

/-- `DevPathSerialCdRom`. -/
def devPathSerialCdRom : SerialFun := fun _ _ _ node info =>
  some (appendCSDNum { info with mtd := .cdRom } (node.field 0 4))

/-- `DevPathSerialFibre`. -/
def devPathSerialFibre : SerialFun := fun _ _ _ node info =>
  some (appendCSDNum (appendCSDNum info (node.field 4 8)) (node.field 12 8))

/-- `DevPathSerialUart`. -/
def devPathSerialUart : SerialFun := fun _ _ _ node info =>
  let info := appendCSDNum info (node.field 4 8)
  let info := appendCSDNum info (node.field 12 1)
  let info := appendCSDNum info (node.field 13 1)
  some (appendCSDNum info (node.field 14 1))

/-- The media type of a USB mass-storage interface, when none is known yet. -/
def usbMtd (interface : UInt8 × UInt8) (mtd : MtdType) : MtdType :=
  if interface.1 = 0x08 ∧ mtd = .unknown then
    if interface.2 = 0x06 then .hardDisk
    else if interface.2 = 0x05 ∨ interface.2 = 0x04 then .floppy
    else if interface.2 = 0x02 then .cdRom
    else mtd
  else mtd

/-- `DevPathSerialUsb`; the status of the look-up of the interface is returned. -/
def devPathSerialUsb : SerialFun := fun platform _ path node info =>
  let info := appendCSDNum info (node.field 0 1)
  let info := appendCSDNum info (node.field 1 1)
  if platform.usbExtendedDecode then
    (platform.usbInterface path).map fun interface =>
      { info with mtd := usbMtd interface info.mtd }
  else some info

/-- `gEfiSasDevicePathGuid`. -/
def efiSasDevicePathGuid : List UInt8 :=
  [0xb4, 0xdd, 0x87, 0xd4, 0x8b, 0x00, 0xd9, 0x11, 0xaf, 0xdc, 0x00, 0x10, 0x83, 0xff, 0xca, 0x4d]

/-- `DevPathSerialVendor`. -/
def devPathSerialVendor : SerialFun := fun platform buffer _ node info =>
  let info := appendCSDGuid buffer info (node.bytes 0 16)
  if node.bytes 0 16 = efiSasDevicePathGuid then
    let info := appendCSDNum info (node.field 20 8)
    let info := appendCSDNum info (node.field 28 8)
    let info := appendCSDNum info (node.field 36 2)
    some (appendCSDNum info (node.field 38 2))
  else
    -- vendor data, as much of it as `PcdShellVendorExtendedDecode` says
    let targetNameLength := min (node.length - 20) platform.shellVendorExtendedDecode
    if targetNameLength ≠ 0 then
      some (appendCSDStr info ((node.bytes 16 targetNameLength).flatMap hex2))
    else some info

/-- `DevPathSerialLun`. -/
def devPathSerialLun : SerialFun := fun _ _ _ node info =>
  some (appendCSDNum info (node.field 0 1))

/-- `DevPathSerialSata`. -/
def devPathSerialSata : SerialFun := fun _ _ _ node info =>
  let info := appendCSDNum info (node.field 0 2)
  let info := appendCSDNum info (node.field 2 2)
  some (appendCSDNum info (node.field 4 2))

/-- `DevPathSerialIScsi`. -/
def devPathSerialIScsi : SerialFun := fun platform _ _ node info =>
  if platform.shellDecodeIScsiMapNames then
    let info := appendCSDNum info (node.field 0 2)
    let info := appendCSDNum info (node.field 2 2)
    let info := appendCSDNum info (node.field 4 8)
    let info := appendCSDNum info (node.field 12 2)
    let targetNameLength := node.length - 18
    if 0 < targetNameLength then
      let targetName := (node.bytes 14 targetNameLength).map fun b => UInt16.ofNat b.toNat
      some (appendCSDStr info (cstr (targetName ++ [0])))
    else some info
  else some info

/-- `DevPathSerialI2O`. -/
def devPathSerialI2O : SerialFun := fun _ _ _ node info =>
  some (appendCSDNum info (node.field 0 4))

/-- `DevPathSerialMacAddr`. -/
def devPathSerialMacAddr : SerialFun := fun _ buffer _ node info =>
  -- Ethernet addresses have six bytes, of other interfaces the whole field is printed
  let hwAddressSize := if node.field 32 1 = 1 ∨ node.field 32 1 = 0 then 6 else 32
  some (appendCSDStr info (cstr (printBytes buffer (node.bytes 0 hwAddressSize))))

/-- `DevPathSerialInfiniBand`. -/
def devPathSerialInfiniBand : SerialFun := fun _ buffer _ node info =>
  let info := appendCSDStr info (cstr (printBytes buffer (node.bytes 4 16)))
  let info := appendCSDNum info (node.field 20 8)
  let info := appendCSDNum info (node.field 28 8)
  some (appendCSDNum info (node.field 36 8))

/-- `DevPathSerialIPv4`; the same buffer is used for both addresses. -/
def devPathSerialIPv4 : SerialFun := fun _ buffer _ node info =>
  let buffer := unicodeSPrint buffer 0 ((node.bytes 0 4).flatMap hex2)
  let info := appendCSDStr info (cstr buffer)
  let info := appendCSDNum info (node.field 8 2)
  let buffer := unicodeSPrint buffer 0 ((node.bytes 4 4).flatMap hex2)
  let info := appendCSDStr info (cstr buffer)
  some (appendCSDNum info (node.field 10 2))

/-- `DevPathSerialIPv6`; the same buffer is used for both addresses. -/
def devPathSerialIPv6 : SerialFun := fun _ buffer _ node info =>
  let buffer := printBytes buffer (node.bytes 0 16)
  let info := appendCSDStr info (cstr buffer)
  let info := appendCSDNum info (node.field 32 2)
  let buffer := printBytes buffer (node.bytes 16 16)
  let info := appendCSDStr info (cstr buffer)
  some (appendCSDNum info (node.field 34 2))

/-- `DevPathSerialScsi`. -/
def devPathSerialScsi : SerialFun := fun _ _ _ node info =>
  some (appendCSDNum (appendCSDNum info (node.field 0 2)) (node.field 2 2))

/-- `DevPathSerial1394`. -/
def devPathSerial1394 : SerialFun := fun _ buffer _ node info =>
  some (appendCSDStr info (cstr (unicodeSPrint buffer 0 (hexLong (node.field 4 8)))))

/-- `DevPathSerialAcpi`: only a floppy drive, `PNP0604`, is serialised. -/
def devPathSerialAcpi : SerialFun := fun _ _ _ node info =>
  if (node.field 0 4).toNat % 2 ^ 16 = 0x41d0 ∧ (node.field 0 4).toNat / 2 ^ 16 = 0x0604 then
    some (appendCSDNum { info with mtd := .floppy } (node.field 4 4))
  else some info

/-- `DevPathSerialDefault`. -/
def devPathSerialDefault : SerialFun := fun _ _ _ _ info => some info

/-- The functions the table points to. -/
inductive Serialiser where
  | default
  | acpi
  | atapi
  | scsi
  | fibre
  | f1394
  | usb
  | i2o
  | macAddr
  | ipv4
  | ipv6
  | infiniBand
  | uart
  | vendor
  | lun
  | sata
  | iScsi
  | hardDrive
  | cdRom
  deriving DecidableEq, Repr

def Serialiser.run : Serialiser → SerialFun
  | .default => devPathSerialDefault
  | .acpi => devPathSerialAcpi
  | .atapi => devPathSerialAtapi
  | .scsi => devPathSerialScsi
  | .fibre => devPathSerialFibre
  | .f1394 => devPathSerial1394
  | .usb => devPathSerialUsb
  | .i2o => devPathSerialI2O
  | .macAddr => devPathSerialMacAddr
  | .ipv4 => devPathSerialIPv4
  | .ipv6 => devPathSerialIPv6
  | .infiniBand => devPathSerialInfiniBand
  | .uart => devPathSerialUart
  | .vendor => devPathSerialVendor
  | .lun => devPathSerialLun
  | .sata => devPathSerialSata
  | .iScsi => devPathSerialIScsi
  | .hardDrive => devPathSerialHardDrive
  | .cdRom => devPathSerialCdRom

/-- `DevPathConsistMappingTable`, the columns that a name is made from. -/
def devPathConsistMappingTable : List ((UInt8 × UInt8) × Serialiser) :=
  [((0x01, 0x01), .default),
   ((0x02, 0x01), .acpi),
   ((0x03, 0x01), .atapi),
   ((0x03, 0x02), .scsi),
   ((0x03, 0x03), .fibre),
   ((0x03, 0x04), .f1394),
   ((0x03, 0x05), .usb),
   ((0x03, 0x06), .i2o),
   ((0x03, 0x0b), .macAddr),
   ((0x03, 0x0c), .ipv4),
   ((0x03, 0x0d), .ipv6),
   ((0x03, 0x09), .infiniBand),
   ((0x03, 0x0e), .uart),
   ((0x03, 0x0a), .vendor),
   ((0x03, 0x11), .lun),
   ((0x03, 0x12), .sata),
   ((0x03, 0x13), .iScsi),
   ((0x04, 0x01), .hardDrive),
   ((0x04, 0x02), .cdRom),
   ((0x04, 0x03), .vendor)]

/-- The handler of a node: that of the table, else the default. -/
def DevicePathNode.serialiser (node : DevicePathNode) : Serialiser :=
  (devPathConsistMappingTable.lookup (node.type, node.subType)).getD .default

/-! ## Names -/

/-- What the buffers on the stack hold when the serialiser of the `i`-th node runs. -/
abbrev Stack := Nat → List Char16

/-- The loop of `GetDeviceConsistMappingInfo`, from the `i`-th node on. -/
def serialiseFrom (platform : Platform) (stack : Stack) (path : DevicePath) :
    Nat → List DevicePathNode → MappingInfo → Option MappingInfo
  | _, [], info => some info
  | i, node :: nodes, info =>
      match node.serialiser.run platform (stack i) path node info with
      | none => none
      | some info' => serialiseFrom platform stack path (i + 1) nodes info'

/-- `GetDeviceConsistMappingInfo`. -/
def getDeviceConsistMappingInfo (platform : Platform) (stack : Stack) (path : DevicePath)
    (info : MappingInfo) : Option MappingInfo :=
  serialiseFrom platform stack path 0 path { info with csd := none }

/-- `EISA_ID_TO_NUM (Acpi->HID)`. -/
def DevicePathNode.eisaNum (node : DevicePathNode) : Nat := (node.field 0 4).toNat / 2 ^ 16

/-- `IsHIDevicePathNode`. -/
def isHIDevicePathNode (node : DevicePathNode) : Bool :=
  if node.type = 0x01 then true
  else if node.type = 0x02 then node.eisaNum ∉ [0x0301, 0x0401, 0x0501, 0x0604]
  else false

/-- The end-of-instance node. -/
def endInstanceNode : DevicePathNode := ⟨0x7f, 0x01, []⟩

/-- The loop of `GetHIDevicePath`: each hardware node is preceded by one end-of-instance
node for every other node before it. -/
def hiNodes : Nat → List DevicePathNode → DevicePath
  | _, [] => []
  | nonHICount, node :: nodes =>
      if isHIDevicePathNode node then
        List.replicate nonHICount endInstanceNode ++ node :: hiNodes nonHICount nodes
      else hiNodes (nonHICount + 1) nodes

/-- `GetHIDevicePath`. -/
def getHIDevicePath (path : DevicePath) : DevicePath := hiNodes 0 path

/-- `GetConsistMappingName`; `devicePathCompare` is that of `SortLib`. -/
def getConsistMappingName (platform : Platform) (devicePathCompare : DevicePath → DevicePath → Int)
    (stack : Stack) (path : DevicePath) (table : List DevicePath) : Option (List Char16) :=
  match table.findIdx? fun entry => devicePathCompare entry (getHIDevicePath path) = 0 with
  | none => none
  | some index =>
      (getDeviceConsistMappingInfo platform stack path (startInfo index .unknown)).map printName

/-! ## The table -/

/-- A handle of the handle database, with the protocols this package asks for:
`OpenVolume` gives the root of its volume or an error. -/
structure Handle where
  id : Nat
  devicePath : Option DevicePath
  blockIo : Bool
  simpleFileSystem : Bool
  openVolume : Except EfiStatus Ptr

/-- One round of the first loop of `ConsistMappingTableInit`. -/
def addHandle (devicePathCompare : DevicePath → DevicePath → Int) (tempTable : List DevicePath)
    (handle : Handle) : List DevicePath :=
  match handle.devicePath with
  | none => tempTable
  | some path =>
      if handle.blockIo || handle.simpleFileSystem then
        if tempTable.any fun entry => devicePathCompare entry (getHIDevicePath path) = 0 then
          tempTable
        else tempTable ++ [getHIDevicePath path]
      else tempTable

/-- `ConsistMappingTableInit`, over the handles that carry a device path. -/
def consistMappingTableInit (devicePathCompare : DevicePath → DevicePath → Int)
    (handles : List Handle) : List DevicePath :=
  (handles.foldl (addHandle devicePathCompare) []).mergeSort fun a b => devicePathCompare a b ≤ 0

/-! ## Looking a volume up -/

/-- Where the code does not go on. -/
inductive Stop where
  | assertion
  | nullPointer
  deriving DecidableEq, Repr

/-- The name of a handle. A handle without a device path has none, and
`GetConsistMappingName` asserts that there is one. -/
def Handle.name (platform : Platform) (devicePathCompare : DevicePath → DevicePath → Int)
    (stack : Stack) (table : List DevicePath) (handle : Handle) :
    Except Stop (Option (List Char16)) :=
  match handle.devicePath with
  | none => .error .assertion
  | some path => .ok (getConsistMappingName platform devicePathCompare stack path table)

/-- The handles `LocateHandleBuffer` returns for the simple file system protocol. -/
def sfsHandles (handles : List Handle) : List Handle := handles.filter Handle.simpleFileSystem

/-- The loop of `GetHandleFromMapName`; each call has a stack of its own. -/
def findMapName (name : Nat → Handle → Except Stop (Option (List Char16)))
    (mapName : List Char16) : Nat → List Handle → Except Stop (Option Handle)
  | _, [] => .ok none
  | i, handle :: handles =>
      match name i handle with
      | .error stop => .error stop
      | .ok found =>
          if found = some mapName then .ok (some handle)
          else findMapName name mapName (i + 1) handles

/-- `GetHandleFromMapName`. -/
def getHandleFromMapName (platform : Platform)
    (devicePathCompare : DevicePath → DevicePath → Int) (frames : Nat → Stack)
    (table : List DevicePath) (handles : List Handle) :
    Option (List Char16) → Except Stop (Option Handle)
  | none => .ok none
  | some mapName =>
      findMapName (fun i => Handle.name platform devicePathCompare (frames i) table) mapName 0
        (sfsHandles handles)

/-- The loop of `UsfOpenRoot`: a volume that does not open is passed over. -/
def openRootLoop (name : Nat → Handle → Except Stop (Option (List Char16)))
    (rootName : List Char16) :
    Nat → List Handle → EfiStatus → Except Stop (EfiStatus × Option Ptr)
  | _, [], status => .ok (status, none)
  | i, handle :: handles, _ =>
      match name i handle with
      | .error stop => .error stop
      | .ok found =>
          if found = some rootName then
            match handle.openVolume with
            | .ok root => .ok (.success, some root)
            | .error status => openRootLoop name rootName (i + 1) handles status
          else openRootLoop name rootName (i + 1) handles .volumeCorrupted

/-- `UsfOpenRoot`; `LocateHandleBuffer` fails when there is no handle. -/
def usfOpenRoot (platform : Platform) (devicePathCompare : DevicePath → DevicePath → Int)
    (frames : Nat → Stack) (table : List DevicePath) (handles : List Handle)
    (rootName : List Char16) : Except Stop (EfiStatus × Option Ptr) :=
  if sfsHandles handles = [] then .ok (.notFound, none)
  else
    openRootLoop (fun i => Handle.name platform devicePathCompare (frames i) table) rootName 0
      (sfsHandles handles) .success

/-! ## What the nodes add -/

/-- The items a node appends, given the contents of its stack buffer. -/
def Serialiser.items (platform : Platform) (buffer : List Char16) (node : DevicePathNode) :
    Serialiser → List Item
  | .default => []
  | .acpi =>
      if (node.field 0 4).toNat % 2 ^ 16 = 0x41d0 ∧ (node.field 0 4).toNat / 2 ^ 16 = 0x0604 then
        [.num (node.field 4 4)]
      else []
  | .atapi => [.num (node.field 0 1 * 2 + node.field 1 1)]
  | .scsi => [.num (node.field 0 2), .num (node.field 2 2)]
  | .fibre => [.num (node.field 4 8), .num (node.field 12 8)]
  | .f1394 => [.str (cstr buffer)]
  | .usb => [.num (node.field 0 1), .num (node.field 1 1)]
  | .i2o => [.num (node.field 0 4)]
  | .macAddr => [.str (cstr buffer)]
  | .ipv4 =>
      [.str (cstr buffer), .num (node.field 8 2), .str (cstr buffer), .num (node.field 10 2)]
  | .ipv6 =>
      [.str (cstr buffer), .num (node.field 32 2), .str (cstr buffer), .num (node.field 34 2)]
  | .infiniBand =>
      [.str (cstr buffer), .num (node.field 20 8), .num (node.field 28 8), .num (node.field 36 8)]
  | .uart =>
      [.num (node.field 4 8), .num (node.field 12 1), .num (node.field 13 1),
        .num (node.field 14 1)]
  | .vendor =>
      .str (cstr buffer) ::
        if node.bytes 0 16 = efiSasDevicePathGuid then
          [.num (node.field 20 8), .num (node.field 28 8), .num (node.field 36 2),
            .num (node.field 38 2)]
        else if min (node.length - 20) platform.shellVendorExtendedDecode ≠ 0 then
          [.str ((node.bytes 16
            (min (node.length - 20) platform.shellVendorExtendedDecode)).flatMap hex2)]
        else []
  | .lun => [.num (node.field 0 1)]
  | .sata => [.num (node.field 0 2), .num (node.field 2 2), .num (node.field 4 2)]
  | .iScsi =>
      if platform.shellDecodeIScsiMapNames then
        [.num (node.field 0 2), .num (node.field 2 2), .num (node.field 4 8),
          .num (node.field 12 2)] ++
          if 0 < node.length - 18 then
            [.str (cstr ((node.bytes 14 (node.length - 18)).map (fun b => UInt16.ofNat b.toNat) ++
              [0]))]
          else []
      else []
  | .hardDrive => [.num (node.field 0 4)]
  | .cdRom => [.num (node.field 0 4)]

/-- The media type after a node. -/
def Serialiser.mtdAfter (platform : Platform) (path : DevicePath) (node : DevicePathNode)
    (mtd : MtdType) : Serialiser → MtdType
  | .acpi =>
      if (node.field 0 4).toNat % 2 ^ 16 = 0x41d0 ∧ (node.field 0 4).toNat / 2 ^ 16 = 0x0604 then
        .floppy
      else mtd
  | .usb =>
      if platform.usbExtendedDecode then
        match platform.usbInterface path with
        | some interface => usbMtd interface mtd
        | none => mtd
      else mtd
  | .hardDrive => if mtd = .unknown then .hardDisk else mtd
  | .cdRom => .cdRom
  | _ => mtd

/-- The look-up of the USB interface fails at this node. -/
def lookupFails (platform : Platform) (path : DevicePath) (node : DevicePathNode) : Bool :=
  node.serialiser = .usb && platform.usbExtendedDecode && (platform.usbInterface path).isNone

theorem printBytes_eq (buffer : List Char16) (bytes : List UInt8) :
    printBytes buffer bytes = buffer := by
  induction bytes generalizing buffer with
  | nil => rfl
  | cons b bytes ih => simp [printBytes, unicodeSPrint, ih]

theorem appendCSDNum_eq (info : MappingInfo) (n : UInt64) :
    appendCSDNum info n = (Item.num n).append info := rfl

theorem appendCSDStr_eq (info : MappingInfo) (s : List Char16) :
    appendCSDStr info s = (Item.str s).append info := rfl

theorem Item.append_mtd (info : MappingInfo) (item : Item) (mtd : MtdType) :
    { item.append info with mtd := mtd } = item.append { info with mtd := mtd } := by
  cases item <;> rfl

/-- One serialiser: it fails only when the interface of a USB device is not found, and
otherwise appends the items of the node. -/
theorem Serialiser.run_eq (platform : Platform) (buffer : List Char16) (path : DevicePath)
    (node : DevicePathNode) (info : MappingInfo) :
    node.serialiser.run platform buffer path node info =
      if lookupFails platform path node then none
      else some ((node.serialiser.items platform buffer node).foldl Item.append
        { info with mtd := node.serialiser.mtdAfter platform path node info.mtd }) := by
  cases hs : node.serialiser with
  | usb =>
      -- with PcdUsbExtendedDecode the interface is asked for, and its lookup can fail
      cases hd : platform.usbExtendedDecode with
      | false =>
          simp [lookupFails, hs, hd, Serialiser.run, devPathSerialUsb, Serialiser.items,
            Serialiser.mtdAfter, appendCSDNum_eq]
      | true =>
          cases hi : platform.usbInterface path with
          | none => simp [lookupFails, hs, hd, hi, Serialiser.run, devPathSerialUsb]
          | some interface =>
              simp [lookupFails, hs, hd, hi, Serialiser.run, devPathSerialUsb, Serialiser.items,
                Serialiser.mtdAfter, appendCSDNum_eq, Item.append_mtd, (Item.append_frame _ _).2.1]
  | acpi =>
      simp only [lookupFails, hs, Serialiser.run, devPathSerialAcpi, Serialiser.items,
        Serialiser.mtdAfter, appendCSDNum_eq]
      split <;> simp
  | vendor =>
      simp only [lookupFails, hs, Serialiser.run, devPathSerialVendor, appendCSDGuid,
        unicodeSPrint, Serialiser.items, Serialiser.mtdAfter, appendCSDNum_eq, appendCSDStr_eq]
      split
      · simp
      · split <;> simp
  | iScsi =>
      simp only [lookupFails, hs, Serialiser.run, devPathSerialIScsi, Serialiser.items,
        Serialiser.mtdAfter, appendCSDNum_eq, appendCSDStr_eq]
      split
      · split <;> simp
      · simp
  | hardDrive =>
      simp only [lookupFails, hs, Serialiser.run, devPathSerialHardDrive, Serialiser.items,
        Serialiser.mtdAfter, appendCSDNum_eq]
      split <;> simp
  | _ =>
      simp [lookupFails, hs, Serialiser.run, devPathSerialDefault, devPathSerialAtapi,
        devPathSerialScsi, devPathSerialFibre, devPathSerial1394, devPathSerialI2O,
        devPathSerialMacAddr, devPathSerialIPv4, devPathSerialIPv6, devPathSerialInfiniBand,
        devPathSerialUart, devPathSerialLun, devPathSerialSata, devPathSerialCdRom,
        Serialiser.items, Serialiser.mtdAfter, appendCSDNum_eq, appendCSDStr_eq, printBytes_eq,
        unicodeSPrint]

/-- The items of a path, from the `i`-th node on. -/
def pathItems (platform : Platform) (stack : Stack) : Nat → List DevicePathNode → List Item
  | _, [] => []
  | i, node :: nodes =>
      node.serialiser.items platform (stack i) node ++ pathItems platform stack (i + 1) nodes

/-- The media type of a path. -/
def pathMtd (platform : Platform) (path : DevicePath) (nodes : List DevicePathNode)
    (mtd : MtdType) : MtdType :=
  nodes.foldl (fun mtd node => node.serialiser.mtdAfter platform path node mtd) mtd

theorem foldl_append_mtd (items : List Item) (info : MappingInfo) (mtd : MtdType) :
    { items.foldl Item.append info with mtd := mtd } =
      items.foldl Item.append { info with mtd := mtd } := by
  induction items generalizing info with
  | nil => rfl
  | cons item items ih => rw [List.foldl_cons, ih, Item.append_mtd, List.foldl_cons]

/-- The whole loop: it fails at a USB device whose interface is not found, and
otherwise appends the items of all nodes. -/
theorem serialiseFrom_eq (platform : Platform) (stack : Stack) (path : DevicePath) (i : Nat)
    (nodes : List DevicePathNode) (info : MappingInfo) :
    serialiseFrom platform stack path i nodes info =
      if nodes.any (lookupFails platform path) then none
      else some ((pathItems platform stack i nodes).foldl Item.append
        { info with mtd := pathMtd platform path nodes info.mtd }) := by
  induction nodes generalizing i info with
  | nil => simp [serialiseFrom, pathItems, pathMtd]
  | cons node nodes ih =>
      rw [serialiseFrom, Serialiser.run_eq]
      cases hf : lookupFails platform path node with
      | true => simp [hf]
      | false =>
          simp only [Bool.false_eq_true, if_false, List.any_cons, hf, Bool.false_or]
          rw [ih, foldl_append_mtd, (foldl_append _ _).2.2, pathItems, List.foldl_append]
          rfl

/-- The Csd of a path. -/
def csdText (platform : Platform) (stack : Stack) (path : DevicePath) : List Char16 :=
  (blocks false (pathItems platform stack 0 path)).flatten

/-- What `GetConsistMappingName` returns. -/
theorem getConsistMappingName_eq (platform : Platform)
    (devicePathCompare : DevicePath → DevicePath → Int) (stack : Stack) (path : DevicePath)
    (table : List DevicePath) :
    getConsistMappingName platform devicePathCompare stack path table =
      match table.findIdx? fun entry => devicePathCompare entry (getHIDevicePath path) = 0 with
      | none => none
      | some index =>
          if path.any (lookupFails platform path) then none
          else some (mtdText (pathMtd platform path path .unknown) ++
            (printD index ++ ((csdText platform stack path).take 2047 ++ text [':']))) := by
  rw [getConsistMappingName]
  cases table.findIdx? fun entry => decide (devicePathCompare entry (getHIDevicePath path) = 0) with
  | none => rfl
  | some index =>
      simp only [getDeviceConsistMappingInfo, serialiseFrom_eq]
      split
      · rfl
      · obtain ⟨hcsd, hhi, hmtd⟩ := foldl_append (pathItems platform stack 0 path)
          { startInfo index .unknown with mtd := pathMtd platform path path .unknown, csd := none }
        rw [Option.map_some, printName_eq]
        simp only [startInfo] at hcsd hhi hmtd ⊢
        rw [hcsd, hhi, hmtd]
        rfl

/-! ## What a name is written with -/

/-- The characters of a name before its colon. -/
def NameChar (c : Char16) : Prop := IsUpper c ∨ alphabet false c ∨ alphabet true c

theorem NameChar.ne {c d : Char16} (h : NameChar c)
    (hd : d = ch ':' ∨ d = ch '\\' ∨ d = ch '/') : c ≠ d := by
  rintro rfl
  rcases hd with rfl | rfl | rfl
  · revert h
    simp only [NameChar, IsUpper, alphabet, IsDigit]
    decide
  · revert h
    simp only [NameChar, IsUpper, alphabet, IsDigit]
    decide
  · revert h
    simp only [NameChar, IsUpper, alphabet, IsDigit]
    decide

theorem mem_hexDigits_of_range {c : Char16} (lo hi : Nat) (hlo : lo ≤ c.toNat)
    (hhi : c.toNat ≤ hi) (h : ∀ k ≤ hi - lo, UInt16.ofNat (lo + k) ∈ hexDigits) :
    c ∈ hexDigits := by
  have hc : c = UInt16.ofNat (lo + (c.toNat - lo)) := by
    rw [Nat.add_sub_of_le hlo, UInt16.ofNat_toNat]
  rw [hc]
  exact h _ (by omega)

/-- Only hexadecimal digits have a code. -/
theorem code_eq_nil (digital : Bool) {c : Char16} (hc : c ∉ hexDigits) :
    (if digital then digitalCode else letterCode) c = [] := by
  have hdigit : ¬ (ch '0' ≤ c ∧ c ≤ ch '9') := by
    rintro ⟨hlo, hhi⟩
    exact hc (mem_hexDigits_of_range 48 57 hlo hhi (by decide))
  have hlower : ¬ (ch 'a' ≤ c ∧ c ≤ ch 'f') := by
    rintro ⟨hlo, hhi⟩
    exact hc (mem_hexDigits_of_range 97 102 hlo hhi (by decide))
  have hupper : ¬ (ch 'A' ≤ c ∧ c ≤ ch 'F') := by
    rintro ⟨hlo, hhi⟩
    exact hc (mem_hexDigits_of_range 65 70 hlo hhi (by decide))
  cases digital with
  | false =>
      simp only [Bool.false_eq_true, if_false, letterCode]
      rw [if_neg hdigit, if_neg hlower, if_neg hupper]
  | true =>
      -- the digital code copies the digits but 1, and writes 1 and the letters in two
      have hcopied : c ∉ text ['0', '2', '3', '4', '5', '6', '7', '8', '9'] := by
        intro hmem
        have hall : ∀ d ∈ text ['0', '2', '3', '4', '5', '6', '7', '8', '9'], d ∈ hexDigits :=
          List.all_iff_forall_prop.mp (by decide)
        exact hc (hall c hmem)
      have hone : c ≠ ch '1' := by
        rintro rfl
        exact hc (by decide)
      simp only [if_true, digitalCode]
      rw [if_neg hcopied, if_neg hone, if_neg hlower, if_neg hupper]

theorem code_alphabet (digital : Bool) (c : Char16) :
    ∀ d ∈ (if digital then digitalCode else letterCode) c, alphabet digital d := by
  intro d hd
  by_cases hhex : c ∈ hexDigits
  · rw [code_eq_word digital c hhex] at hd
    exact word_alphabet digital _ d hd
  · rw [code_eq_nil digital hhex] at hd
    cases hd

/-- The text of any item is written in the alphabet of its side. -/
theorem Item.text_nameChar (digital : Bool) (item : Item) :
    ∀ c ∈ item.text digital, NameChar c := by
  have hside : ∀ c, alphabet digital c → NameChar c := by
    intro c hc
    cases digital with
    | false => exact Or.inr (Or.inl hc)
    | true => exact Or.inr (Or.inr hc)
  intro c hc
  apply hside
  cases item with
  | num n =>
      exact @Item.text_alphabet digital (.num n) trivial c hc
  | str s =>
      obtain ⟨a, -, ha⟩ := List.mem_flatMap.mp hc
      exact code_alphabet digital a c ha

theorem csdText_nameChar (platform : Platform) (stack : Stack) (path : DevicePath) :
    ∀ c ∈ csdText platform stack path, NameChar c := by
  have hblocks : ∀ (items : List Item) (digital : Bool), ∀ c ∈ (blocks digital items).flatten,
      NameChar c := by
    intro items
    induction items with
    | nil => simp [blocks]
    | cons item items ih =>
        intro digital c hc
        rw [blocks, List.flatten_cons, List.mem_append] at hc
        rcases hc with hc | hc
        · exact item.text_nameChar digital c hc
        · exact ih _ c hc
  exact hblocks _ _

theorem printD_nameChar (n : Nat) :
    (∀ c ∈ printD n, NameChar c) ∧ ∃ c ∈ printD n, IsDigit c := by
  have hdigits : ∀ k, (∀ c ∈ decimal k, NameChar c) ∧ ∃ c ∈ decimal k, IsDigit c := by
    intro k
    constructor
    · intro c hc
      exact Or.inr (Or.inr (Or.inl (isDigit_of_mem_decimal hc)))
    · obtain ⟨c, hc⟩ := List.exists_mem_of_ne_nil _ (decimal_ne_nil k)
      exact ⟨c, hc, isDigit_of_mem_decimal hc⟩
  rw [printD]
  split
  · exact hdigits _
  · obtain ⟨hall, c, hc, hdigit⟩ := hdigits (2 ^ 32 - n % 2 ^ 32)
    constructor
    · intro d hd
      rcases List.mem_cons.mp hd with rfl | hd
      · exact Or.inr (Or.inr (Or.inr rfl))
      · exact hall d hd
    · exact ⟨c, List.mem_cons_of_mem _ hc, hdigit⟩

/-- A name is letters, digits and minus signs, some digit among them, and its colon. -/
theorem getConsistMappingName_shape {platform : Platform}
    {devicePathCompare : DevicePath → DevicePath → Int} {stack : Stack} {path : DevicePath}
    {table : List DevicePath} {name : List Char16}
    (h : getConsistMappingName platform devicePathCompare stack path table = some name) :
    ∃ stem, name = stem ++ [ch ':'] ∧ (∀ c ∈ stem, NameChar c) ∧ ∃ c ∈ stem, IsDigit c := by
  rw [getConsistMappingName_eq] at h
  split at h
  · cases h
  · next index _ =>
      split at h
      · cases h
      · rw [Option.some.injEq] at h
        obtain ⟨hall, c, hc, hdigit⟩ := printD_nameChar index
        refine ⟨mtdText (pathMtd platform path path .unknown) ++ (printD index ++
          (csdText platform stack path).take 2047), ?_, ?_, c, by simp [hc], hdigit⟩
        · rw [← h]
          simp [text]
        · intro d hd
          rw [List.mem_append, List.mem_append] at hd
          rcases hd with hd | hd | hd
          · exact Or.inl (mtdText_upper _ d hd)
          · exact hall d hd
          · exact csdText_nameChar platform stack path d (List.mem_of_mem_take hd)

end EfiLvgl.Mapping

import Am335xKernel.Lib.SearchTree
import Am335xKernel.Kernel.Interface

/-!
# Adding used eraseblocks: `drivers/mtd/ubi/scan.c`

When a UBI device is attached, every physical eraseblock (PEB) that holds data
is handed to `ubi_scan_add_used`. Its VID header says which logical eraseblock
(LEB) of which volume it is. If several PEBs are the same LEB, one is kept and
the others go to the list of those to be erased: the one with the higher
sequence number is newer, but a copy whose data CRC is wrong was not finished
and loses to the other one.

Reads succeed here: what is read back of a PEB is on the device, and a read of
data may report bit-flips or an ECC error. Allocations succeed. The red-black
trees are search trees with any rebalancing.
-/

namespace Am335x.Ubi

inductive VolType where
  | dynamic
  | static
  deriving DecidableEq

/-- `struct ubi_vid_hdr`, in the byte order of the CPU. -/
structure VidHdr where
  volType : VolType
  copyFlag : Bool
  compat : ℕ
  volId : ℕ
  lnum : ℕ
  dataSize : ℕ
  usedEbs : ℕ
  dataPad : ℕ
  dataCrc : ℕ
  sqnum : ℕ
  deriving DecidableEq

/-- Results of `ubi_io_read_data` that are not failures here. -/
inductive DataErr where
  | none
  | bitflips
  | eccerr
  deriving DecidableEq

structure FlashPeb where
  vidHdr : VidHdr
  data : List ℕ
  dataErr : DataErr

/-- `struct ubi_device`, with the two library functions that are used on it. -/
structure UbiDevice where
  peb : ℕ → FlashPeb
  crc32 : List ℕ → ℕ
  rbInsertColor : SearchTree.Rebalance

/-- `struct ubi_scan_leb`. -/
structure ScanLeb where
  ec : ℕ
  pnum : ℕ
  lnum : ℕ
  scrub : Bool
  copyFlag : Bool
  sqnum : ℕ
  deriving DecidableEq

/-- `struct ubi_scan_volume`; `last_data_size` is not initialised. -/
structure ScanVolume where
  volId : ℕ
  highestLnum : ℕ
  lebCount : ℕ
  volType : VolType
  usedEbs : ℕ
  lastDataSize : Option ℕ
  dataPad : ℕ
  compat : ℕ
  root : SearchTree ScanLeb

/-- The fields of `struct ubi_scan_info` that are written here. An element of the
erase list is a PEB with its erase counter. -/
structure ScanInfo where
  volumes : SearchTree ScanVolume
  erase : List (ℕ × ℕ)
  volsFound : ℕ
  highestVolId : ℕ
  maxSqnum : ℕ

def ScanInfo.empty : ScanInfo :=
  { volumes := .nil, erase := [], volsFound := 0, highestVolId := 0, maxSqnum := 0 }

def ScanVolume.key (sv : ScanVolume) : ℕᵒᵈ := OrderDual.toDual sv.volId

def ScanInfo.findSv (si : ScanInfo) (volId : ℕ) : Option ScanVolume :=
  si.volumes.find ScanVolume.key (OrderDual.toDual volId)

def ScanVolume.findSeb (sv : ScanVolume) (lnum : ℕ) : Option ScanLeb :=
  sv.root.find ScanLeb.lnum lnum

def ScanInfo.update (si : ScanInfo) (volId : ℕ) (f : ScanVolume → ScanVolume) : ScanInfo :=
  { si with volumes := si.volumes.modify ScanVolume.key (OrderDual.toDual volId) f }

/-- `add_to_list` with the erase list. -/
def addToErase (si : ScanInfo) (pnum ec : ℕ) (toHead : Bool) : ScanInfo :=
  { si with erase := if toHead then (pnum, ec) :: si.erase else si.erase ++ [(pnum, ec)] }

def validateVidHdr (vidHdr : VidHdr) (sv : ScanVolume) : ℤ :=
  if sv.lebCount ≠ 0 then
    if vidHdr.volId ≠ sv.volId then einval
    else if vidHdr.volType ≠ sv.volType then einval
    else if vidHdr.usedEbs ≠ sv.usedEbs then einval
    else if vidHdr.dataPad ≠ sv.dataPad then einval
    else 0
  else 0

def newVolume (volId : ℕ) (vidHdr : VidHdr) : ScanVolume :=
  { volId := volId, highestLnum := 0, lebCount := 0, volType := vidHdr.volType
    usedEbs := vidHdr.usedEbs, lastDataSize := none, dataPad := vidHdr.dataPad
    compat := vidHdr.compat, root := .nil }

def addVolume (ubi : UbiDevice) (si : ScanInfo) (volId : ℕ) (vidHdr : VidHdr) :
    ScanInfo × ScanVolume :=
  match si.findSv volId with
  | some sv => (si, sv)
  | none =>
    let sv := newVolume volId vidHdr
    ({ si with
        volumes := ubi.rbInsertColor.run (si.volumes.link ScanVolume.key sv)
        highestVolId := if si.highestVolId < volId then volId else si.highestVolId
        volsFound := si.volsFound + 1 }, sv)

/-- The bits of the result of `compare_lebs`. -/
structure CmpRes where
  secondIsNewer : Bool
  bitflips : Bool
  corrupted : Bool
  deriving DecidableEq

/-- The second half of `compare_lebs`: read the data of the copy and check the
CRC. (Bit-flips in a VID header that was read again are forgotten.) -/
def checkCopy (ubi : UbiDevice) (secondIsNewer : Bool) (pnum : ℕ) (vidHdr : VidHdr) : CmpRes :=
  let buf := (ubi.peb pnum).data.take vidHdr.dataSize
  if ubi.crc32 buf ≠ vidHdr.dataCrc then
    { secondIsNewer := !secondIsNewer, bitflips := false, corrupted := true }
  else
    { secondIsNewer := secondIsNewer
      bitflips := (ubi.peb pnum).dataErr ≠ .none
      corrupted := false }

def compareLebs (ubi : UbiDevice) (seb : ScanLeb) (pnum : ℕ) (vidHdr : VidHdr) :
    Except ℤ CmpRes :=
  if vidHdr.sqnum = seb.sqnum then .error einval
  else if seb.sqnum < vidHdr.sqnum then
    if !vidHdr.copyFlag then
      .ok { secondIsNewer := true, bitflips := false, corrupted := false }
    else .ok (checkCopy ubi true pnum vidHdr)
  else if !seb.copyFlag then
    .ok { secondIsNewer := false, bitflips := false, corrupted := false }
  else .ok (checkCopy ubi false seb.pnum (ubi.peb seb.pnum).vidHdr)

def newLeb (pnum ec : ℕ) (vidHdr : VidHdr) (scrub : Bool) : ScanLeb :=
  { ec := ec, pnum := pnum, lnum := vidHdr.lnum, scrub := scrub
    copyFlag := vidHdr.copyFlag, sqnum := vidHdr.sqnum }

def ScanLeb.write (pnum ec : ℕ) (vidHdr : VidHdr) (scrub : Bool) (seb : ScanLeb) : ScanLeb :=
  { seb with
    ec := ec, pnum := pnum, scrub := scrub, copyFlag := vidHdr.copyFlag, sqnum := vidHdr.sqnum }

def ScanVolume.replace (sv : ScanVolume) (pnum ec : ℕ) (vidHdr : VidHdr) (scrub : Bool) :
    ScanVolume :=
  { sv with
    root := sv.root.modify ScanLeb.lnum vidHdr.lnum (ScanLeb.write pnum ec vidHdr scrub)
    lastDataSize :=
      if sv.highestLnum = vidHdr.lnum then some vidHdr.dataSize else sv.lastDataSize }

def ScanVolume.insert (ubi : UbiDevice) (sv : ScanVolume) (pnum ec : ℕ) (vidHdr : VidHdr)
    (scrub : Bool) : ScanVolume :=
  { sv with
    root := ubi.rbInsertColor.run (sv.root.link ScanLeb.lnum (newLeb pnum ec vidHdr scrub))
    lebCount := sv.lebCount + 1
    highestLnum := if sv.highestLnum ≤ vidHdr.lnum then vidHdr.lnum else sv.highestLnum
    lastDataSize :=
      if sv.highestLnum ≤ vidHdr.lnum then some vidHdr.dataSize else sv.lastDataSize }

def ubiScanAddUsed (ubi : UbiDevice) (si : ScanInfo) (pnum ec : ℕ) (vidHdr : VidHdr)
    (bitflips : Bool) : ScanInfo × ℤ :=
  let (si, sv) := addVolume ubi si vidHdr.volId vidHdr
  let si :=
    { si with maxSqnum := if si.maxSqnum < vidHdr.sqnum then vidHdr.sqnum else si.maxSqnum }
  match sv.findSeb vidHdr.lnum with
  | some seb =>
    if seb.sqnum = vidHdr.sqnum ∧ vidHdr.sqnum ≠ 0 then (si, einval)
    else
      match compareLebs ubi seb pnum vidHdr with
      | .error err => (si, err)
      | .ok res =>
        if res.secondIsNewer then
          let err := validateVidHdr vidHdr sv
          if err ≠ 0 then (si, err)
          else
            ((addToErase si seb.pnum seb.ec res.corrupted).update vidHdr.volId fun sv =>
              sv.replace pnum ec vidHdr (res.bitflips || bitflips), 0)
        else (addToErase si pnum ec res.corrupted, 0)
  | none =>
    let err := validateVidHdr vidHdr sv
    if err ≠ 0 then (si, err)
    else (si.update vidHdr.volId fun sv => sv.insert ubi pnum ec vidHdr bitflips, 0)

structure Used where
  pnum : ℕ
  ec : ℕ
  bitflips : Bool
  deriving DecidableEq

def UbiDevice.vidHdr (ubi : UbiDevice) (u : Used) : VidHdr := (ubi.peb u.pnum).vidHdr

def ScanInfo.add (ubi : UbiDevice) (si : ScanInfo) (u : Used) : ScanInfo × ℤ :=
  ubiScanAddUsed ubi si u.pnum u.ec (ubi.vidHdr u) u.bitflips

def ScanInfo.addAll (ubi : UbiDevice) (si : ScanInfo) : List Used → ScanInfo × ℤ
  | [] => (si, 0)
  | u :: us =>
    match si.add ubi u with
    | (si, err) => if err ≠ 0 then (si, err) else si.addAll ubi us

end Am335x.Ubi

import Nfql.IpfixConstants
import Nfql.Pipeline

set_option autoImplicit false

/- The template of an IPFIX record: io-ipfix.c. -/
namespace Nfql

/-- A value converted to `size_t`. -/
def sizeT (value : Int) : Nat := (value % 2 ^ 64).toNat

/-- A value converted to `ssize_t`. -/
def ssizeT (value : Int) : Int := value.bmod (2 ^ 64)

/-- `ipfix_ie_t`. -/
structure IpfixIe where
  name : String
  offset : Nat
  size : Nat
  type : IeType
  deriving DecidableEq, Repr

/-- `ipfix_templ_t`. Its `len` is the length of the array. -/
structure IpfixTempl where
  arr : List IpfixIe
  nextOffset : Nat
  deriving DecidableEq, Repr

/-- `calloc(1, sizeof(ipfix_templ_t))`. -/
def IpfixTempl.empty : IpfixTempl := ⟨[], 0⟩

/-- A failed `assert` prints its condition and aborts, as `errExit` does with its message. -/
def assert (condition : Bool) (text : String) : Except Fault Unit :=
  if condition then .ok () else .error (.errExit text)

/-- `ipfix_ie_type_sizeof`. -/
def ipfixIeTypeSizeof : IeType → Int
  | .unsigned64 => 8
  | .unsigned8 => 1
  | .float64 => 8
  | .unsigned16 => 2
  | .unsigned32 => 4
  | .ipv6Address => 16
  | .ipv4Address => 4
  | .dateTimeMicroseconds | .dateTimeMilliseconds | .dateTimeNanoseconds => 8
  | .dateTimeSeconds => 4
  | .macAddress => 6
  | .unknown | .string | .octetArray | .boolean | .subTemplateMultiList | .basicList
  | .subTemplateList => -1

/-- `ipfix_templ_get_ie`. -/
def ipfixTemplGetIe (templ : IpfixTempl) (ieName : String) : Option IpfixIe :=
  templ.arr.find? fun ie => decide (ieName = ie.name)

/-- The offset of a new element, which needs to be aligned to its size. -/
def paddedOffset (nextOffset size : Nat) : Nat :=
  let rest := nextOffset % size
  if rest ≠ 0 then sizeT (nextOffset + (size - rest)) else nextOffset

/-- `ipfix_templ_ie_register`; `none` for a return value of -1. -/
def ipfixTemplIeRegister (templ : IpfixTempl) (ieName : String) :
    Except Fault (Option IpfixTempl) :=
  if (ipfixTemplGetIe templ ieName).isSome then .ok (some templ)
  else
    let ieType := getIpfixType ieName
    if ieType = .unknown then .ok none
    else do
      let size := sizeT (ipfixIeTypeSizeof ieType)
      let offset := paddedOffset templ.nextOffset size
      assert (offset % size == 0) "new_ie->offset % new_ie->size == 0"
      .ok (some ⟨templ.arr ++ [⟨ieName, offset, size, ieType⟩], sizeT (offset + size)⟩)

/-- A sequence of registrations, up to the first that fails. -/
def ipfixTemplRegisterAll : IpfixTempl → List String → Except Fault (Option IpfixTempl)
  | templ, [] => .ok (some templ)
  | templ, ieName :: rest => do
      match ← ipfixTemplIeRegister templ ieName with
      | none => .ok none
      | some templ => ipfixTemplRegisterAll templ rest

/-- `ipfix_templ_new`. -/
def ipfixTemplNew : Except Fault (Option IpfixTempl) :=
  ipfixTemplRegisterAll IpfixTempl.empty
    ["flowStartMilliseconds", "flowEndMilliseconds", "sourceIPv4Address",
      "destinationIPv4Address", "sourceTransportPort", "destinationTransportPort",
      "ingressInterface", "egressInterface", "packetDeltaCount", "octetDeltaCount",
      "protocolIdentifier", "ipClassOfService", "tcpControlBits"]

/-- `ipfix_templ_get_ie_offset`; `none` for -1. -/
def ipfixTemplGetIeOffset (templ : IpfixTempl) (ieName : String) : Option Nat :=
  (ipfixTemplGetIe templ ieName).map IpfixIe.offset

/-- `ipfix_templ_get_rec_size`. -/
def ipfixTemplGetRecSize (templ : IpfixTempl) : Nat := sizeT (templ.nextOffset + 7) >>> 3 <<< 3

/-- `fbInfoElementSpec_t`; the element that ends an array has no name. -/
structure FbInfoElementSpec where
  name : Option String
  lenOverride : Nat
  deriving DecidableEq, Repr

/-- `_fbtempl_add_padding`. -/
def fbtemplPadding (paddingSize : Int) : FbInfoElementSpec :=
  ⟨some "paddingOctets", paddingSize.toNat⟩

/-- The body of the loop over the template. -/
def addIe (specs : List FbInfoElementSpec × Int) (ie : IpfixIe) :
    Except Fault (List FbInfoElementSpec × Int) := do
  let (spec, currOffset) := specs
  let (spec, currOffset) ←
    if ie.offset ≠ sizeT currOffset then do
      let paddingSize := ssizeT (ie.offset - currOffset)
      assert (0 < paddingSize && paddingSize < 64) "padding_size > 0 && padding_size < 64"
      .ok (spec ++ [fbtemplPadding paddingSize], ssizeT (currOffset + paddingSize))
    else .ok (spec, currOffset)
  .ok (spec ++ [⟨some ie.name, 0⟩], ssizeT (currOffset + ie.size))

/-- `ipfix_get_fb_info_elem_spec`. -/
def ipfixGetFbInfoElemSpec (templ : IpfixTempl) : Except Fault (List FbInfoElementSpec) := do
  let (spec, currOffset) ← templ.arr.foldlM addIe ([], 0)
  let tail :=
    if currOffset.tmod 8 ≠ 0 then [fbtemplPadding (8 - currOffset.tmod 8)] else []
  .ok (spec ++ tail ++ [⟨none, 0⟩])

end Nfql

import EventSchema.Calendar.Temporal
import EventSchema.Format.Card
import EventSchema.Format.Clock
import EventSchema.Format.Epoch
import EventSchema.Format.Network
import EventSchema.Format.Uuid
import EventSchema.Format.Web
import EventSchema.Schema.Format
/-!
The format that the shape of a text suggests, white space around it left out. A date or time is only
suggested by its shape; whether it is one is for the calendar to say.
-/
namespace EventSchema.Format

/-- Tests in order, the more specific ones first. -/
def recognisers : List (Format × (List Char → Bool)) :=
  [(.uuid, isUuid), (.dateTime, isDateTimeShape), (.date, isDateShape), (.time, isTimeShape),
    (.email, isEmail), (.uri, isUri), (.ipv4, isIpv4), (.ipv6, isIpv6), (.creditCard, isCard)]

def detect? (text : String) : Option Format :=
  let trimmed := Text.trim text.toList
  (recognisers.find? fun (_, recognises) => recognises trimmed).map (·.1)

/-- The format of a string value. Digits are tried as an epoch first. A text that the calendar reads
has the temporal format of its shape, or is a date and time; one that it does not read has no
temporal format. Other formats are left out on demand. -/
def ofText? (detectOthers : Bool) (text : String) : Option Format :=
  if isEpochText text.toList then some .epoch
  else
    let detected := detect? text
    if Calendar.isTemporal text then
      match detected with
      | some format => if format.isTemporal then some format else some .dateTime
      | none => some .dateTime
    else detected.filter fun format => !format.isTemporal && detectOthers

end EventSchema.Format

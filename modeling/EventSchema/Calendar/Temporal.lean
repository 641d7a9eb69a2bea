import EventSchema.Calendar.Internet
import EventSchema.Calendar.Layout

namespace EventSchema.Calendar

def isTemporal (text : String) : Bool :=
  let trimmed := Text.trim text.toList
  isInternetTimestamp trimmed || matchesLayout trimmed

/-- How many layouts there are beside the two of the Internet. -/
def layoutCount : Nat := layouts.length

end EventSchema.Calendar

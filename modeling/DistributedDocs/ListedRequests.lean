import DistributedDocs.NameServerListings

namespace DistributedDocs

/-!
# The requests a user is shown

`LISTREQUESTS` prints the number of every request the user has to decide.
`APPROVEACCESS` and `REJECTACCESS` search for a number in two different ways;
both go by what the listing says, and both take the number from it.
-/

section Rows

variable
  {ns : NameServer}
  {username : CString}
  {req : AccessRequest}

end Rows

/-! ## The decisions -/

section Decisions

variable
  {World : Type}
  {username : CString}
  {start : NsState World}

theorem Looked.accessRequests
    {looked : NsState World}
    (known : Looked start looked) :
    looked.ns.accessRequests = start.ns.accessRequests :=
  known.onlyCache.sameRest.1

end Decisions

end DistributedDocs

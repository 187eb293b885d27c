import InstrumentBus.Broker.Error
import InstrumentBus.Network.Address

/-!
Which hosts may connect.
-/

namespace InstrumentBus

/-- A host that may connect: the broker's own, under any of its loopback addresses, or one
address. -/
inductive AllowedHost
  | loopback : AllowedHost
  | address (a : Network.Address) : AllowedHost
deriving DecidableEq

namespace AllowedHost

def read (s : String) : Except BrokerError AllowedHost :=
  let s := Text.trim s
  if Text.eqIgnoringCase s "localhost" then .ok .loopback
  else match Network.Address.read? s with
    | some a => .ok (.address a)
    | none => .error (.config ("invalid allowed host " ++ Text.quote s))

/-- `a` is the address of a peer, with four bytes if it can be. -/
def allows (a : Network.Address) : AllowedHost → Bool
  | .loopback => a.isLoopback
  | .address b => b == a

end AllowedHost

structure AcceptPolicy where
  name : String
  accepts : Network.Endpoint → Bool

namespace AcceptPolicy

def ofHosts (hosts : List AllowedHost) : AcceptPolicy where
  name := "allowed_hosts"
  accepts e := hosts.any (AllowedHost.allows e.address.unmapped)

def readHosts (hosts : List String) : Except BrokerError AcceptPolicy :=
  (hosts.mapM AllowedHost.read).map ofHosts

end AcceptPolicy

end InstrumentBus

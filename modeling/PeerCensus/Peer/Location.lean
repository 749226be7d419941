/-!
# Locations

Where an internet address is, and what the network it belongs to is used for.
-/

namespace PeerCensus

/-- What a network is used for. -/
inductive NetworkUsage
  | hosting
  | residential
  | nonResidential
  | business
  | education
  | government
  | military
  deriving DecidableEq, Hashable, Repr

namespace NetworkUsage

/-- The name of a use. -/
def name : NetworkUsage → String
  | hosting => "hosting"
  | residential => "residential"
  | nonResidential => "non-residential"
  | business => "business"
  | education => "education"
  | government => "government"
  | military => "military"

/-- All uses. -/
def all : List NetworkUsage :=
  [hosting, residential, nonResidential, business, education, government, military]

/-- The use of this name. -/
def ofName? (name : String) : Option NetworkUsage :=
  all.find? fun usage => usage.name == name

theorem ofName?_name (usage : NetworkUsage) : ofName? usage.name = some usage := by
  cases usage <;> decide

end NetworkUsage

/-- An autonomous system. -/
structure AutonomousSystem where
  id : String
  name : String
  domain : String
  route : String
  /-- What it is used for, where that is known. -/
  usage : Option NetworkUsage
  deriving DecidableEq

/-- The location of an address. Texts that are not known are empty. -/
structure Location where
  network : AutonomousSystem
  country : String
  state : String
  city : String
  deriving DecidableEq

/-- Why an address has no location. -/
inductive LocationError
  /-- The resolver knows none. -/
  | notFound
  /-- The resolver cannot be asked. -/
  | unavailable
  deriving DecidableEq

end PeerCensus

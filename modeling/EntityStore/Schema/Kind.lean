import EntityStore.Schema.Attribute

/-! The taxonomy of kinds, and the attributes that each declares. -/
namespace EntityStore

inductive Branch
  | object
  | action
  | effect
  | relationship
deriving DecidableEq, Repr

namespace Branch

def all : List Branch := [.object, .action, .effect, .relationship]

def name : Branch → String
  | .object => "object"
  | .action => "action"
  | .effect => "effect"
  | .relationship => "relationship"

def ofName? (s : String) : Option Branch := all.find? fun b => b.name == s

end Branch

/-- The kinds of entities. A kind also names the namespace of its records. -/
inductive Kind
  | application
  | data
  | device
  | network
  | networkInterface
  | networkLink
  | persona
  | system
  | operatingSystem
  | service
  | cyberAttack
  | cyberDefend
  | cyberRecon
  | dataExfiltration
  | manipulationAttack
  | phishingAttack
  | deny
  | destroy
  | degrade
  | disrupt
  | detect
  | manipulate
  | hardwareDamageEffect
  | loadRateEffect
  | delayEffect
  | jitterEffect
  | cpuLoadEffect
  | memoryUseEffect
  | dropEffect
  | hardwareDegradeEffect
  | otherDegradeEffect
  | blockTrafficEffect
  | packetManipulationEffect
  | relationship
deriving DecidableEq, Repr

namespace Kind

/-- The closed taxonomy in order. -/
def all : List Kind := [
  .application, .data, .device, .network, .networkInterface, .networkLink, .persona, .system,
  .operatingSystem, .service, .cyberAttack, .cyberDefend, .cyberRecon, .dataExfiltration,
  .manipulationAttack, .phishingAttack, .deny, .destroy, .degrade, .disrupt, .detect, .manipulate,
  .hardwareDamageEffect, .loadRateEffect, .delayEffect, .jitterEffect, .cpuLoadEffect,
  .memoryUseEffect, .dropEffect, .hardwareDegradeEffect, .otherDegradeEffect, .blockTrafficEffect,
  .packetManipulationEffect, .relationship]

def name : Kind → String
  | .application => "Application"
  | .data => "Data"
  | .device => "Device"
  | .network => "Network"
  | .networkInterface => "NetworkInterface"
  | .networkLink => "NetworkLink"
  | .persona => "Persona"
  | .system => "System"
  | .operatingSystem => "OperatingSystem"
  | .service => "Service"
  | .cyberAttack => "CyberAttack"
  | .cyberDefend => "CyberDefend"
  | .cyberRecon => "CyberRecon"
  | .dataExfiltration => "DataExfiltration"
  | .manipulationAttack => "ManipulationAttack"
  | .phishingAttack => "PhishingAttack"
  | .deny => "Deny"
  | .destroy => "Destroy"
  | .degrade => "Degrade"
  | .disrupt => "Disrupt"
  | .detect => "Detect"
  | .manipulate => "Manipulate"
  | .hardwareDamageEffect => "HardwareDamageEffect"
  | .loadRateEffect => "LoadRateEffect"
  | .delayEffect => "DelayEffect"
  | .jitterEffect => "JitterEffect"
  | .cpuLoadEffect => "CPULoadEffect"
  | .memoryUseEffect => "MemoryUseEffect"
  | .dropEffect => "DropEffect"
  | .hardwareDegradeEffect => "HardwareDegradeEffect"
  | .otherDegradeEffect => "OtherDegradeEffect"
  | .blockTrafficEffect => "BlockTrafficEffect"
  | .packetManipulationEffect => "PacketManipulationEffect"
  | .relationship => "Relationship"

def ofName? (s : String) : Option Kind := all.find? fun k => k.name == s

def branch : Kind → Branch
  | .application | .data | .device | .network | .networkInterface | .networkLink | .persona
  | .system | .operatingSystem | .service => .object
  | .cyberAttack | .cyberDefend | .cyberRecon | .dataExfiltration | .manipulationAttack
  | .phishingAttack => .action
  | .relationship => .relationship
  | _ => .effect

def parent? : Kind → Option Kind
  | .service => some .application
  | .dataExfiltration | .manipulationAttack | .phishingAttack => some .cyberAttack
  | .destroy | .degrade | .disrupt => some .deny
  | .hardwareDamageEffect => some .destroy
  | .loadRateEffect | .delayEffect | .jitterEffect | .cpuLoadEffect | .memoryUseEffect
  | .dropEffect | .hardwareDegradeEffect | .otherDegradeEffect => some .degrade
  | .blockTrafficEffect => some .disrupt
  | .packetManipulationEffect => some .manipulate
  | _ => none

/-- The text in front of the UUID in ids of a kind. -/
def idPrefix? : Kind → Option String
  | .relationship => some "relationship--"
  | _ => none

/-- The attributes that all kinds of a branch share. -/
def branchAttributes : Branch → List Attribute
  | .object => [
      ⟨"name", .string, false⟩, ⟨"description", .string, false⟩,
      ⟨"related_objects", .stringList, false⟩]
  | .action | .effect => [
      ⟨"event_time", .timestamp, false⟩, ⟨"target_ids", .stringList, false⟩,
      ⟨"target_modifiers", .mapping, false⟩, ⟨"phase", .option .cyberEventPhaseType, false⟩,
      ⟨"duration", .duration, false⟩, ⟨"actor_ids", .stringList, false⟩,
      ⟨"source_ids", .stringList, false⟩]
  | .relationship => []

/-- The attributes that a kind itself introduces. -/
def ownAttributes : Kind → List Attribute
  | .application => [⟨"version", .string, false⟩]
  | .data => [
      ⟨"sensitivity", .option .sensitivityType, false⟩, ⟨"data_type", .option .dataType, false⟩,
      ⟨"encrypted", .option .encryptionType, false⟩, ⟨"status", .option .dataStatusType, false⟩,
      ⟨"confidentiality", .float, false⟩]
  | .device => [
      ⟨"device_types", .optionList .deviceType, false⟩, ⟨"is_virtual", .boolean, false⟩,
      ⟨"role", .string, false⟩, ⟨"device_identifier", .string, false⟩,
      ⟨"network_interfaces", .list, false⟩]
  | .network => [⟨"protocol", .option .networkProtocolType, false⟩, ⟨"mask", .string, false⟩]
  | .networkInterface => [⟨"address", .string, false⟩]
  | .networkLink => [
      ⟨"is_logical", .boolean, false⟩, ⟨"physical_layer", .option .physicalLayerType, false⟩,
      ⟨"data_link_protocol", .option .dataLinkProtocolType, false⟩,
      ⟨"bandwidth", .integer, false⟩, ⟨"latency", .integer, false⟩, ⟨"jitter", .integer, false⟩,
      ⟨"network_interfaces", .list, false⟩]
  | .system => [⟨"system_type", .option .systemType, false⟩]
  | .operatingSystem => [⟨"os_type", .option .operatingSystemType, false⟩]
  | .service => [⟨"service_type", .option .serviceType, false⟩, ⟨"address", .string, false⟩]
  | .cyberRecon => [⟨"recon_type", .option .reconType, false⟩]
  | .manipulationAttack => [⟨"description", .string, false⟩, ⟨"attack_content", .string, false⟩]
  | .phishingAttack => [
      ⟨"message_type", .option .messageType, false⟩, ⟨"header", .string, false⟩,
      ⟨"body", .string, false⟩]
  | .disrupt => [⟨"is_random", .boolean, false⟩, ⟨"percentage", .float, false⟩]
  | .detect => [⟨"acquired_information", .mapping, false⟩]
  | .manipulate => [⟨"description", .string, false⟩]
  | .hardwareDamageEffect => [⟨"damage_type", .option .hardwareDamageType, false⟩]
  | .loadRateEffect => [
      ⟨"percentage", .float, false⟩, ⟨"rate_type", .option .loadRateType, false⟩]
  | .delayEffect => [⟨"seconds", .float, false⟩]
  | .jitterEffect => [⟨"milliseconds", .float, false⟩]
  | .cpuLoadEffect | .memoryUseEffect | .dropEffect => [⟨"percentage", .float, false⟩]
  | .hardwareDegradeEffect => [
      ⟨"degrade_type", .option .hardwareDegradeType, false⟩, ⟨"percentage", .float, false⟩]
  | .otherDegradeEffect => [⟨"percentage", .float, false⟩, ⟨"description", .string, false⟩]
  | .packetManipulationEffect => [
      ⟨"manipulation_type", .option .packetManipulationType, false⟩,
      ⟨"attack_content", .string, false⟩, ⟨"percentage", .float, false⟩]
  | .relationship => [
      ⟨"subject_id", .string, true⟩, ⟨"relationship_type", .option .relationshipType, true⟩,
      ⟨"object_id", .string, true⟩, ⟨"privileges", .stringList, false⟩]
  | .persona | .cyberAttack | .cyberDefend | .dataExfiltration | .deny | .destroy | .degrade
  | .blockTrafficEffect => []

/-- A kind and the kinds it specialises, the root first. No kind stands deeper than third. -/
def lineage (k : Kind) : List Kind :=
  match k.parent? with
  | none => [k]
  | some p => match p.parent? with
    | none => [p, k]
    | some q => [q, p, k]

/-- The attributes that a kind accepts: those of its branch, then those of its lineage from the
root down, the first of a name counting. -/
def attributes (k : Kind) : List Attribute :=
  k.lineage.foldl (fun acc j => Attribute.extend acc j.ownAttributes) (branchAttributes k.branch)

/-- The declaration of an attribute by name. -/
def attribute? (k : Kind) (name : String) : Option Attribute :=
  k.attributes.find? fun a => a.name == name

end Kind

end EntityStore

import EntityStore.Text.Case

/-! The closed option sets of enumeration-valued attributes. -/
namespace EntityStore

/-- A named, closed set of allowed texts. -/
inductive Enumeration
  | acknowledgeResponseType
  | adminType
  | cyberEventPhaseType
  | dataLinkProtocolType
  | dataStatusType
  | dataType
  | deviceType
  | encryptionType
  | hardwareDamageType
  | hardwareDegradeType
  | loadRateType
  | manipulationType
  | messageType
  | networkProtocolType
  | operatingSystemType
  | packetManipulationType
  | physicalLayerType
  | reconType
  | relationshipType
  | sensitivityType
  | serviceType
  | systemType
deriving DecidableEq, Repr

namespace Enumeration

def all : List Enumeration := [
  .acknowledgeResponseType, .adminType, .cyberEventPhaseType, .dataLinkProtocolType,
  .dataStatusType, .dataType, .deviceType, .encryptionType, .hardwareDamageType,
  .hardwareDegradeType, .loadRateType, .manipulationType, .messageType, .networkProtocolType,
  .operatingSystemType, .packetManipulationType, .physicalLayerType, .reconType,
  .relationshipType, .sensitivityType, .serviceType, .systemType]

def name : Enumeration → String
  | .acknowledgeResponseType => "AcknowledgeResponseType"
  | .adminType => "AdminType"
  | .cyberEventPhaseType => "CyberEventPhaseType"
  | .dataLinkProtocolType => "DataLinkProtocolType"
  | .dataStatusType => "DataStatusType"
  | .dataType => "DataType"
  | .deviceType => "DeviceType"
  | .encryptionType => "EncryptionType"
  | .hardwareDamageType => "HardwareDamageType"
  | .hardwareDegradeType => "HardwareDegradeType"
  | .loadRateType => "LoadRateType"
  | .manipulationType => "ManipulationType"
  | .messageType => "MessageType"
  | .networkProtocolType => "NetworkProtocolType"
  | .operatingSystemType => "OperatingSystemType"
  | .packetManipulationType => "PacketManipulationType"
  | .physicalLayerType => "PhysicalLayerType"
  | .reconType => "ReconType"
  | .relationshipType => "RelationshipType"
  | .sensitivityType => "SensitivityType"
  | .serviceType => "ServiceType"
  | .systemType => "SystemType"

/-- The options in declaration order. -/
def options : Enumeration → List String
  | .acknowledgeResponseType => ["AbleToComply", "UnableToComply"]
  | .adminType => [
      "Administration", "Assessment", "Collection", "Configuration", "Evaluation", "Forensics",
      "Investigation", "Operations", "Provisioning", "Testing"]
  | .cyberEventPhaseType => [
      "Start", "Suspend", "Continue", "ContinueWithChanges", "End", "Cancel"]
  | .dataLinkProtocolType => [
      "Ethernet", "WiFi", "ATM", "LocalTalk", "PPP", "TokenRing", "VLAN", "Bluetooth", "1553Bus"]
  | .dataStatusType => [
      "Intact", "Compromised", "Corrupted", "Manipulated", "NonDecryptable", "Erased"]
  | .dataType => ["File", "Code", "Credentials", "Communications", "SystemConfiguration"]
  | .deviceType => [
      "Generic", "Networking", "ComputerNode", "PortableComputer", "Controller", "Storage",
      "Sensor", "Printer", "Scanner", "Communications", "HMI", "Monitoring", "IoT", "Security"]
  | .encryptionType => ["NotEncrypted", "DES", "TripleDES", "RSA", "AES", "TwoFish", "SHA"]
  | .hardwareDamageType => ["BootLoop", "PhysicalDestruction", "HardDriveErased"]
  | .hardwareDegradeType => ["Keyboard", "Mouse", "Display", "Sound"]
  | .loadRateType => ["Upload", "Download"]
  | .manipulationType => ["Packet", "File", "Database"]
  | .messageType => ["Email", "Chat", "Text", "SocialMedia"]
  | .networkProtocolType => ["InternetProtocol", "NAT", "ICMP", "ARP", "RIP", "OSPF", "IPsec"]
  | .operatingSystemType => [
      "MicrosoftDOS", "MicrosoftWindows", "AppleMacOS", "DECVMS", "IBMOS 2", "Android",
      "AppleiOS", "CiscoIOS", "Firmware", "UNIX-Linux"]
  | .packetManipulationType => ["Duplication", "Corruption", "Redordering", "Dropped"]
  | .physicalLayerType => ["Wired", "Wireless"]
  | .reconType => [
      "AccountDiscovery", "AdMalware", "AntivirusTrojan", "ApplicationWindowDiscovery", "ARPScan",
      "BannerGrabbing", "BounceScan", "BrowserBookmarkDiscovery", "CloudInfrastructureDiscovery",
      "CloudServiceDashboard", "CloudServiceDiscovery", "Compliance", "CSRF", "DatabaseInjection",
      "DatabaseStructure", "DBManufactureVersion", "Device", "DNS", "Domain",
      "DomainTrustDiscovery", "FileAndDirectoryDiscovery", "FINScan", "FTP", "HTTP", "IdleScan",
      "IGMP", "InputValidation", "IP", "LDAPScan", "NetBiosScan", "NetworkMap",
      "NetworkServiceScanning", "NetworkShareDiscovery", "NetworkSniffing", "NTP", "NULLScan",
      "OSScan", "PasswordPolicyDiscovery", "PatchHistory", "PeripheralDeviceDiscovery",
      "PermissionGroupsDiscovery", "Ping", "PingScan", "PortScan", "PortSweep", "PPP",
      "ProcessDiscovery", "QueryRegistry", "RARP", "Remote SystemDiscovery", "Rootkit", "RPCScan",
      "Service", "SLIP", "SMTP", "SNMPSweep", "SoftwareDiscover", "SYNScan",
      "SystemlnformationDiscovery", "SystemNetworkConfigurationDiscovery",
      "SystemNetworkConnectionsDiscovery", "SystemOwnerUserDiscovery", "SystemServiceDiscovery",
      "SystemTimeDiscovery", "TCPConnect", "TraceRoute", "UNIX-Linux",
      "VirtualizationSandboxEvasion", "Vulnerability", "WebCrawler", "Windows", "WirelessActive",
      "WirelessPassive", "XMASScan", "XSS"]
  | .relationshipType => [
      "Administers", "AdministeredBy", "ComponentOf", "HasComponent", "ContainedIn", "Contains",
      "ProvidedBy", "Provides", "ResidesOn", "HasResident"]
  | .sensitivityType => [
      "Unclassified", "Confidential", "FOUO", "Secret", "SecretNoForn", "TS", "TS_SCI",
      "NATORestricted", "NATOConfidential", "NATOSecret", "CosmicTopSecret", "FVEYProprietary",
      "Proprietary", "PII", "HIPAA", "GDPR", "Public"]
  | .serviceType => [
      "DNS", "Email", "Web", "Database", "File", "Chat", "Forum", "SocialMedia",
      "Containerization", "Virtualization", "NetworkTime"]
  | .systemType => ["Generic", "SCADA", "C2", "ICS"]

def ofName? (s : String) : Option Enumeration := all.find? fun e => e.name == s

/-- The option that a text equals up to ASCII letter case. -/
def canonical? (e : Enumeration) (value : String) : Option String :=
  e.options.find? fun o => Text.sameFolded o value

end Enumeration

end EntityStore

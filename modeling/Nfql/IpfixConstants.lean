import Mathlib.Data.List.Nodup

set_option autoImplicit false

/- The information elements of IPFIX: ipfix-constants.c. -/
namespace Nfql

/-- `enum ipfix_ie_type`. -/
inductive IeType where
  | unknown | string | unsigned64 | unsigned8 | dateTimeMicroseconds | octetArray | float64
  | dateTimeSeconds | unsigned16 | unsigned32 | dateTimeMilliseconds | boolean | ipv6Address
  | ipv4Address | macAddress | subTemplateMultiList | dateTimeNanoseconds | basicList
  | subTemplateList
  deriving DecidableEq, Repr

/-- The names that `get_ipfix_type` compares with, in that order, and their types. -/
def ipfixTypes : List (String × IeType) :=
  [("VRFname", .string), ("flowKeyIndicator", .unsigned64),
    ("informationElementSemantics", .unsigned8), ("flowStartMicroseconds", .dateTimeMicroseconds),
    ("ipPayloadPacketSection", .octetArray), ("upperCILimit", .float64), ("ipTTL", .unsigned8),
    ("observationTimeSeconds", .dateTimeSeconds), ("postMCastPacketTotalCount", .unsigned64),
    ("tcpUrgTotalCount", .unsigned64), ("anonymizationFlags", .unsigned16),
    ("postPacketDeltaCount", .unsigned64), ("egressInterface", .unsigned32),
    ("flowIdleTimeout", .unsigned16), ("informationElementName", .string),
    ("responderOctets", .unsigned64), ("collectionTimeMilliseconds", .dateTimeMilliseconds),
    ("originalFlowsCompleted", .unsigned64), ("flowId", .unsigned64),
    ("monitoringIntervalStartMilliSeconds", .dateTimeMilliseconds), ("tcpSourcePort", .unsigned16),
    ("tcpSequenceNumber", .unsigned32), ("commonPropertiesId", .unsigned64),
    ("ipVersion", .unsigned8), ("octetTotalCount", .unsigned64),
    ("flowDurationMilliseconds", .unsigned32), ("egressInterfaceType", .unsigned32),
    ("udpDestinationPort", .unsigned16), ("distinctCountOfDestinationIPv4Address", .unsigned32),
    ("selectorIdTotalPktsObserved", .unsigned64), ("ethernetPayloadLength", .unsigned16),
    ("connectionCountNew", .unsigned32), ("valueDistributionMethod", .unsigned8),
    ("flowActiveTimeout", .unsigned16), ("observationTimeMicroseconds", .dateTimeMicroseconds),
    ("dot1qCustomerDEI", .boolean), ("sourceIPv6PrefixLength", .unsigned8),
    ("rfc3550JitterMicroseconds", .unsigned32), ("applicationGroupName", .string),
    ("minFlowStartMicroseconds", .dateTimeMicroseconds),
    ("egressBroadcastPacketTotalCount", .unsigned64), ("dot1qCustomerPriority", .unsigned8),
    ("tcpAckTotalCount", .unsigned64), ("collectorIPv6Address", .ipv6Address),
    ("hashSelectedRangeMax", .unsigned64), ("pseudoWireId", .unsigned32),
    ("rtpSequenceNumber", .unsigned16), ("samplingPacketInterval", .unsigned32),
    ("ingressMulticastPacketTotalCount", .unsigned64), ("lowerCILimit", .float64),
    ("p2pTechnology", .string), ("samplingPacketSpace", .unsigned32),
    ("selectionSequenceId", .unsigned64), ("destinationIPv4PrefixLength", .unsigned8),
    ("informationElementId", .unsigned16), ("encryptedTechnology", .string),
    ("collectorIPv4Address", .ipv4Address), ("mplsTopLabelType", .unsigned8),
    ("greKey", .unsigned32), ("flowEndReason", .unsigned8),
    ("postDestinationMacAddress", .macAddress), ("egressVRFID", .unsigned32),
    ("hashIPPayloadSize", .unsigned64), ("natPoolId", .unsigned32),
    ("egressPhysicalInterface", .unsigned32), ("mplsLabelStackSection8", .octetArray),
    ("selectorIdTotalPktsSelected", .unsigned64), ("paddingOctets", .octetArray),
    ("hashOutputRangeMax", .unsigned64), ("sourceIPv6Address", .ipv6Address),
    ("initiatorPackets", .unsigned64), ("ingressInterface", .unsigned32),
    ("destinationIPv4Prefix", .ipv4Address), ("ignoredPacketTotalCount", .unsigned64),
    ("droppedPacketTotalCount", .unsigned64), ("ipNextHopIPv6Address", .ipv6Address),
    ("bgpDestinationAsNumber", .unsigned32), ("subTemplateMultiList", .subTemplateMultiList),
    ("octetDeltaSumOfSquares", .unsigned64), ("mplsLabelStackSection10", .octetArray),
    ("virtualStationInterfaceId", .octetArray), ("ethernetTotalLength", .unsigned16),
    ("firewallEvent", .unsigned8), ("tcpFinTotalCount", .unsigned64),
    ("protocolIdentifier", .unsigned8), ("droppedOctetDeltaCount", .unsigned64),
    ("flowEndSeconds", .dateTimeSeconds), ("exporterIPv6Address", .ipv6Address),
    ("droppedOctetTotalCount", .unsigned64), ("postNAPTDestinationTransportPort", .unsigned16),
    ("sourceIPv4PrefixLength", .unsigned8), ("dot1qDEI", .boolean), ("flowDirection", .unsigned8),
    ("ethernetHeaderLength", .unsigned8), ("igmpType", .unsigned8),
    ("octetTotalSumOfSquares", .unsigned64), ("selectorName", .string),
    ("interfaceDescription", .string), ("icmpCodeIPv6", .unsigned8),
    ("exportedOctetTotalCount", .unsigned64), ("applicationSubCategoryName", .string),
    ("ethernetType", .unsigned16), ("hashDigestOutput", .boolean),
    ("udpMessageLength", .unsigned16), ("minimumTTL", .unsigned8),
    ("samplingPopulation", .unsigned32), ("maxFlowEndMilliseconds", .dateTimeMilliseconds),
    ("minimumIpTotalLength", .unsigned64), ("postIpClassOfService", .unsigned8),
    ("connectionTransactionId", .unsigned64), ("destinationIPv6Prefix", .ipv6Address),
    ("observationDomainId", .unsigned32), ("originalFlowsPresent", .unsigned64),
    ("natPoolName", .string), ("messageMD5Checksum", .octetArray),
    ("mplsLabelStackSection9", .octetArray), ("exporterCertificate", .octetArray),
    ("mplsLabelStackSection7", .octetArray), ("mplsLabelStackSection6", .octetArray),
    ("mplsLabelStackSection5", .octetArray), ("mplsLabelStackSection4", .octetArray),
    ("mplsLabelStackSection3", .octetArray), ("mplsLabelStackSection2", .octetArray),
    ("exportedFlowRecordTotalCount", .unsigned64), ("interfaceName", .string),
    ("relativeError", .float64), ("sourceIPv4Address", .ipv4Address),
    ("virtualStationName", .string), ("fragmentOffset", .unsigned16),
    ("tcpPshTotalCount", .unsigned64), ("informationElementRangeEnd", .unsigned64),
    ("hashSelectedRangeMin", .unsigned64), ("applicationName", .string), ("portId", .unsigned32),
    ("postDot1qCustomerVlanId", .unsigned16), ("notSentFlowTotalCount", .unsigned64),
    ("tcpWindowScale", .unsigned16), ("ingressVRFID", .unsigned32),
    ("deltaFlowCount", .unsigned64), ("postIpPrecedence", .unsigned8),
    ("hashInitialiserValue", .unsigned64), ("exportSctpStreamId", .unsigned16),
    ("observationTimeNanoseconds", .dateTimeNanoseconds), ("destinationIPv4Address", .ipv4Address),
    ("anonymizationTechnique", .unsigned16), ("natEvent", .unsigned8),
    ("sourceIPv6Prefix", .ipv6Address), ("notSentPacketTotalCount", .unsigned64),
    ("dataLinkFrameSection", .octetArray), ("mplsPayloadPacketSection", .octetArray),
    ("portRangeStart", .unsigned16), ("ingressBroadcastPacketTotalCount", .unsigned64),
    ("systemInitTimeMilliseconds", .dateTimeMilliseconds),
    ("informationElementDescription", .string), ("ipDiffServCodePoint", .unsigned8),
    ("destinationTransportPort", .unsigned16), ("dataRecordsReliability", .boolean),
    ("natOriginatingAddressRealm", .unsigned8), ("IPSecSPI", .unsigned32),
    ("maxFlowEndSeconds", .dateTimeSeconds), ("collectorTransportPort", .unsigned16),
    ("ipNextHopIPv4Address", .ipv4Address), ("destinationIPv6PrefixLength", .unsigned8),
    ("tcpUrgentPointer", .unsigned16), ("observationDomainName", .string), ("userName", .string),
    ("bgpValidityState", .unsigned8), ("portRangeStepSize", .unsigned16),
    ("dot1qVlanId", .unsigned16), ("observedFlowTotalCount", .unsigned64),
    ("tcpRstTotalCount", .unsigned64), ("informationElementDataType", .unsigned8),
    ("pseudoWireControlWord", .unsigned32), ("digestHashValue", .unsigned64),
    ("exportProtocolVersion", .unsigned8), ("samplingProbability", .float64),
    ("postIpDiffServCodePoint", .unsigned8), ("destinationIPv6Address", .ipv6Address),
    ("postNAPTSourceTransportPort", .unsigned16), ("messageScope", .unsigned8),
    ("observationPointType", .unsigned8), ("tcpOptions", .unsigned64),
    ("ipHeaderPacketSection", .octetArray), ("ipTotalLength", .unsigned64),
    ("packetDeltaCount", .unsigned64), ("ignoredOctetTotalCount", .unsigned64),
    ("distinctCountOfDestinationIPv6Address", .unsigned64),
    ("distinctCountOfSourceIPv6Address", .unsigned64), ("tcpHeaderLength", .unsigned8),
    ("ipHeaderLength", .unsigned8), ("hashOutputRangeMin", .unsigned64),
    ("postMCastPacketDeltaCount", .unsigned64), ("pseudoWireType", .unsigned16),
    ("staMacAddress", .macAddress), ("observationPointId", .unsigned64),
    ("icmpTypeCodeIPv4", .unsigned16), ("icmpTypeCodeIPv6", .unsigned16),
    ("payloadLengthIPv6", .unsigned16), ("biflowDirection", .unsigned8),
    ("opaqueOctets", .octetArray), ("flowEndSysUpTime", .unsigned32),
    ("postNATSourceIPv4Address", .ipv4Address), ("informationElementRangeBegin", .unsigned64),
    ("metroEvcType", .unsigned8), ("bgpSourceAsNumber", .unsigned32),
    ("samplingSize", .unsigned32), ("wtpMacAddress", .macAddress),
    ("layer2OctetDeltaCount", .unsigned64), ("tcpControlBits", .unsigned8),
    ("virtualStationUUID", .octetArray), ("layer2SegmentId", .unsigned64),
    ("initiatorOctets", .unsigned64), ("ipv4IHL", .unsigned8),
    ("destinationMacAddress", .macAddress), ("flowStartMilliseconds", .dateTimeMilliseconds),
    ("virtualStationInterfaceName", .string), ("ipPrecedence", .unsigned8),
    ("absoluteError", .float64), ("templateId", .unsigned16), ("selectorId", .unsigned64),
    ("meteringProcessId", .unsigned32), ("isMulticast", .unsigned8),
    ("applicationId", .octetArray), ("samplingTimeInterval", .unsigned32),
    ("classificationEngineId", .unsigned8), ("metroEvcId", .string),
    ("collectorCertificate", .octetArray), ("dot1qPriority", .unsigned8),
    ("minExportSeconds", .dateTimeSeconds), ("minFlowStartNanoseconds", .dateTimeNanoseconds),
    ("totalLengthIPv4", .unsigned16), ("tcpSynTotalCount", .unsigned64),
    ("exportingProcessId", .unsigned32), ("postMplsTopLabelExp", .unsigned8),
    ("mplsLabelStackDepth", .unsigned32), ("originalFlowsInitiated", .unsigned64),
    ("postNATSourceIPv6Address", .ipv6Address), ("mplsLabelStackLength", .unsigned32),
    ("privateEnterpriseNumber", .unsigned32), ("mplsTopLabelIPv6Address", .ipv6Address),
    ("dataLinkFrameSize", .unsigned16), ("postNATDestinationIPv6Address", .ipv6Address),
    ("exportTransportProtocol", .unsigned8), ("flowEndNanoseconds", .dateTimeNanoseconds),
    ("wlanChannelId", .unsigned8), ("flowStartSeconds", .dateTimeSeconds),
    ("mplsTopLabelStackSection", .octetArray), ("lineCardId", .unsigned32),
    ("distinctCountOfSourceIPv4Address", .unsigned32), ("exporterIPv4Address", .ipv4Address),
    ("hashIPPayloadOffset", .unsigned64), ("ingressPhysicalInterface", .unsigned32),
    ("udpSourcePort", .unsigned16), ("bgpNextHopIPv6Address", .ipv6Address),
    ("flowEndDeltaMicroseconds", .unsigned32), ("tunnelTechnology", .string),
    ("portRangeEnd", .unsigned16), ("flowStartSysUpTime", .unsigned32),
    ("dot1qCustomerVlanId", .unsigned16), ("rfc3550JitterNanoseconds", .unsigned32),
    ("tcpAcknowledgementNumber", .unsigned32), ("portRangeNumPorts", .unsigned16),
    ("samplingTimeSpace", .unsigned32), ("applicationDescription", .string),
    ("bgpNextAdjacentAsNumber", .unsigned32), ("flowDurationMicroseconds", .unsigned32),
    ("packetTotalCount", .unsigned64), ("informationElementUnits", .unsigned16),
    ("mplsVpnRouteDistinguisher", .octetArray), ("postOctetDeltaCount", .unsigned64),
    ("mplsTopLabelTTL", .unsigned8), ("mplsTopLabelIPv4Address", .ipv4Address),
    ("bgpNextHopIPv4Address", .ipv4Address), ("ipClassOfService", .unsigned8),
    ("wlanSSID", .string), ("flowEndMicroseconds", .dateTimeMicroseconds),
    ("ingressUnicastPacketTotalCount", .unsigned64),
    ("minFlowStartMilliseconds", .dateTimeMilliseconds), ("confidenceLevel", .float64),
    ("icmpCodeIPv4", .unsigned8), ("exportInterface", .unsigned32),
    ("rfc3550JitterMilliseconds", .unsigned32), ("mplsTopLabelExp", .unsigned8),
    ("nextHeaderIPv6", .unsigned8), ("sourceIPv4Prefix", .ipv4Address),
    ("ipPayloadLength", .unsigned32), ("tcpDestinationPort", .unsigned16),
    ("fragmentFlags", .unsigned8), ("observationTimeMilliseconds", .dateTimeMilliseconds),
    ("multicastReplicationFactor", .unsigned32), ("tcpWindowSize", .unsigned16),
    ("bgpPrevAdjacentAsNumber", .unsigned32), ("flowEndMilliseconds", .dateTimeMilliseconds),
    ("maxExportSeconds", .dateTimeSeconds), ("fragmentIdentification", .unsigned32),
    ("selectorAlgorithm", .unsigned16), ("minFlowStartSeconds", .dateTimeSeconds),
    ("sourceMacAddress", .macAddress), ("postOctetTotalCount", .unsigned64),
    ("flowStartNanoseconds", .dateTimeNanoseconds), ("ingressInterfaceType", .unsigned32),
    ("basicList", .basicList), ("maxFlowEndMicroseconds", .dateTimeMicroseconds),
    ("postMCastOctetTotalCount", .unsigned64), ("maximumTTL", .unsigned8),
    ("postMCastOctetDeltaCount", .unsigned64), ("postPacketTotalCount", .unsigned64),
    ("octetDeltaCount", .unsigned64), ("egressUnicastPacketTotalCount", .unsigned64),
    ("staIPv4Address", .ipv4Address), ("natType", .unsigned8), ("responderPackets", .unsigned64),
    ("vlanId", .unsigned16), ("subTemplateList", .subTemplateList), ("ipv4Options", .unsigned32),
    ("postVlanId", .unsigned16), ("icmpTypeIPv6", .unsigned8),
    ("exporterTransportPort", .unsigned16), ("icmpTypeIPv4", .unsigned8),
    ("sourceTransportPort", .unsigned16), ("distinctCountOfDestinationIPAddress", .unsigned64),
    ("flowStartDeltaMicroseconds", .unsigned32), ("exportedMessageTotalCount", .unsigned64),
    ("notSentOctetTotalCount", .unsigned64), ("connectionSumDuration", .unsigned64),
    ("postSourceMacAddress", .macAddress), ("sessionScope", .unsigned8),
    ("mplsPayloadLength", .unsigned32), ("droppedPacketDeltaCount", .unsigned64),
    ("postNATDestinationIPv4Address", .ipv4Address), ("applicationCategoryName", .string),
    ("informationElementIndex", .unsigned16), ("layer2OctetTotalCount", .unsigned64),
    ("monitoringIntervalEndMilliSeconds", .dateTimeMilliseconds),
    ("maxFlowEndNanoseconds", .dateTimeNanoseconds), ("flowLabelIPv6", .unsigned32),
    ("ipv6ExtensionHeaders", .unsigned32), ("mplsLabelStackSection", .octetArray),
    ("distinctCountOfSourceIPAddress", .unsigned64), ("maximumIpTotalLength", .unsigned64),
    ("postDot1qVlanId", .unsigned16), ("mplsTopLabelPrefixLength", .unsigned8)]

/-- `get_ipfix_type`. -/
def getIpfixType (ieName : String) : IeType := (ipfixTypes.lookup ieName).getD .unknown

end Nfql

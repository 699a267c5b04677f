import IsrRan.Adt.BoundedBitsetList
import IsrRan.Adt.CircularBuffer
import IsrRan.Asn1.BitStringRoundTrip
import IsrRan.Asn1.ExtGroups
import IsrRan.Common.BearerManager
import IsrRan.Common.TimerExpiry
import IsrRan.Epc.Hss
import IsrRan.Epc.SpgwPaging
import IsrRan.Epc.SpgwTables
import IsrRan.Mac.BcSched
import IsrRan.Mac.BwpRbBitmapRuns
import IsrRan.Mac.ContiguousPrbs
import IsrRan.Mac.DlHarqServed
import IsrRan.Mac.FalsePosition
import IsrRan.Mac.GenerateFormat2a
import IsrRan.Mac.MuxPdu
import IsrRan.Mac.PduBuilderNr
import IsrRan.Mac.RaSchedRuns
import IsrRan.Mac.RarPduNr
import IsrRan.Mac.RarPduRoundTrip
import IsrRan.Mac.RbgSelection
import IsrRan.Mac.SchPduBounds
import IsrRan.Mac.SchPduNrMisread
import IsrRan.Mac.SchPduRoundTrip
import IsrRan.Mac.SchedLchFit
import IsrRan.Mac.SchedNrPdcch
import IsrRan.Mac.SfCchAllocatorRuns
import IsrRan.Mac.SiSched
import IsrRan.Mac.UeDlHarq
import IsrRan.Mac.UlHarqSync
import IsrRan.Nas.CountAgreement
import IsrRan.Nas.MmeReplay
import IsrRan.Nas.UeSecurityMode
import IsrRan.Pdcp.AmDrbCount
import IsrRan.Pdcp.IntegrityGate
import IsrRan.Pdcp.UndeliveredOrder
import IsrRan.Phy.Crc
import IsrRan.Phy.DciNrRoundTrip
import IsrRan.Phy.DciRoundTrip
import IsrRan.Phy.LdpcRmLength
import IsrRan.Phy.PolarSets
import IsrRan.Phy.RaType2
import IsrRan.Phy.RmConv
import IsrRan.Phy.RmTurboAgree
import IsrRan.Phy.Sch
import IsrRan.Phy.Sequence
import IsrRan.Phy.TbsSizes
import IsrRan.Rlc.AmLte.DataPdu
import IsrRan.Rlc.AmLte.RxVariables
import IsrRan.Rlc.AmLte.TxDelivery
import IsrRan.Rlc.AmLte.TxNack
import IsrRan.Rlc.AmNr.WireFormat
import IsrRan.Rlc.LteParsing
import IsrRan.Rlc.UmNr.SegmentLoop
import IsrRan.Rrc.ObjIdCmp
import IsrRan.Upper.GtpuCodec
import IsrRan.Upper.GtpuForwarding
import IsrRan.Upper.TftMatch
import IsrRan.Upper.TftTemplates

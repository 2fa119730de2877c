import RutosSdk.Jit.Polling
import RutosSdk.Jit.Threads
import RutosSdk.Jit.Accounting
import RutosSdk.Hal.TimeLine
import RutosSdk.Hal.RxBounds
import RutosSdk.Hal.WriteMode
import RutosSdk.Hal.ConfigRanges
import RutosSdk.Hal.GpsValidity
import RutosSdk.Forwarder.BeaconTimes
import RutosSdk.Forwarder.GpsThread
import RutosSdk.Forwarder.UpReport
import RutosSdk.Com.Bulk
import RutosSdk.Fsb.Update
import RutosSdk.Fsb.Commit
import RutosSdk.Tools.Accepted
import RutosSdk.Forwarder.Crc
import RutosSdk.Jit.Immediate
import RutosSdk.Hal.Duplicates
import RutosSdk.Com.ReadAck
import RutosSdk.Hal.AirtimeFormula
import RutosSdk.Hal.Lbt
import RutosSdk.Hal.CounterTime
import RutosSdk.Uboot.UploadRuns
import RutosSdk.Hal.NmeaChecksum
import RutosSdk.Hal.UbxTime
import RutosSdk.Drivers.HwVersion
import RutosSdk.Uboot.MnfText
import RutosSdk.Uboot.Fwtool
import RutosSdk.Hal.FineTimestamp
import RutosSdk.Drivers.ButtonHotplug
import RutosSdk.Drivers.PulseCount
import RutosSdk.Uboot.BootNor
import RutosSdk.Drivers.IncrementMac
import RutosSdk.Drivers.TltGpio
import RutosSdk.Forwarder.Validation
import RutosSdk.Mtd.Placement
import RutosSdk.Com.Registers
import RutosSdk.Mtd.ReadBack
import RutosSdk.Forwarder.Downlink

import DetectionSystem.Lib.Transition
import DetectionSystem.Lib.Barrier
import DetectionSystem.Lib.ListSeg
import DetectionSystem.Lib.Fifo
import DetectionSystem.Lib.CondVar
import DetectionSystem.Lib.Exit
import DetectionSystem.Lib.Bytes
import DetectionSystem.Lib.Hex
import DetectionSystem.Lib.Memory
import DetectionSystem.Lib.Utf8
import DetectionSystem.Lib.EvenOdd
import DetectionSystem.Lib.Segment
import DetectionSystem.Firmware.Peterson
import DetectionSystem.Firmware.Events
import DetectionSystem.Firmware.BufferList
import DetectionSystem.Firmware.HandOff
import DetectionSystem.Firmware.SendFailure
import DetectionSystem.Firmware.Upload
import DetectionSystem.Firmware.PacketHandler
import DetectionSystem.Server.Round
import DetectionSystem.Server.Startup
import DetectionSystem.Server.ReadyChannel
import DetectionSystem.Server.Database
import DetectionSystem.Server.CoverageArea
import DetectionSystem.Server.Intersection
import DetectionSystem.Server.PacketProcessor
import DetectionSystem.Server.ProcessLoop
import DetectionSystem.Server.Process
import DetectionSystem.Server.Ssid
import DetectionSystem.Server.StoreInDB
import DetectionSystem.Server.Participation
import DetectionSystem.Server.Retry
import DetectionSystem.Server.Service
import DetectionSystem.Server.Registration
import DetectionSystem.Server.Receive
import DetectionSystem.Server.Attempts
import DetectionSystem.Server.BlockingQueue
import DetectionSystem.Server.Positions
import DetectionSystem.Server.Expiry
import DetectionSystem.Firmware.Answers
import DetectionSystem.Lib.Greedy
import DetectionSystem.Lib.GroupBy
import DetectionSystem.Lib.Regex
import DetectionSystem.Lib.Dictionary
import DetectionSystem.Lib.Numbered
import DetectionSystem.DataWindow.Estimate
import DetectionSystem.DataWindow.LocalAddresses
import DetectionSystem.DataWindow.Animation
import DetectionSystem.DataWindow.MacAddress
import DetectionSystem.DataWindow.StackedChart
import DetectionSystem.DataWindow.LineChart
import DetectionSystem.DataWindow.MapOfDevices
import DetectionSystem.DataWindow.Slider
import DetectionSystem.DataWindow.ClearMap
import DetectionSystem.Firmware.Heap
import DetectionSystem.Server.Interference
import DetectionSystem.Server.Accounting
import DetectionSystem.Server.Delivery
import DetectionSystem.Lib.QuasiNewton
import DetectionSystem.Lib.Plane
import DetectionSystem.Lib.Wolfe
import DetectionSystem.Dlib.LineSearch
import DetectionSystem.Dlib.Sectioning
import DetectionSystem.Dlib.Bfgs
import DetectionSystem.Dlib.FindMin
import DetectionSystem.Server.Trilateration
import DetectionSystem.Server.CommandLine
import DetectionSystem.Lib.GroupCount
import DetectionSystem.DataWindow.Histograms
import DetectionSystem.DataWindow.Home

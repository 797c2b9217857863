import SmartHome.Bootloader.Occupancy
import SmartHome.Bootloader.W5100
import SmartHome.Bootloader.PageZero
import SmartHome.Bootloader.StopAndWait
import SmartHome.Bootloader.Conserved
import SmartHome.Bootloader.FreshTransfer
import SmartHome.Bootloader.Stk500
import SmartHome.Chat.Strangers
import SmartHome.Chat.Formatting
import SmartHome.Chat.Presence
import SmartHome.Chat.Isolation
import SmartHome.Chat.Reports
import SmartHome.Chat.Root
import SmartHome.Chat.Views
import SmartHome.Chat.Restart
import SmartHome.Android.DeviceReports
import SmartHome.Android.PushProtocol
import SmartHome.Firmware.SystemDataConfig
import SmartHome.ClientWeb.Authcode
import SmartHome.Dserver.Replies
import SmartHome.Redis.Output
import SmartHome.Dserver.Handover
import SmartHome.Chat.Requests
